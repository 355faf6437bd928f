import Quill.Arguments
import Quill.Bind
import Quill.Bound
import Quill.Bound.Nodes
import Quill.Check
import Quill.Code
import Quill.Code.Codec
import Quill.Code.Generate
import Quill.Code.Listing
import Quill.Code.Opcode
import Quill.Code.Optimize
import Quill.CommandLine
import Quill.Compile
import Quill.Diagnostic
import Quill.Fault
import Quill.Intrinsic
import Quill.Intrinsic.Call
import Quill.Machine
import Quill.Machine.Call
import Quill.Machine.Step
import Quill.Main
import Quill.Number.Binary64
import Quill.Number.Print
import Quill.Number.Shortest
import Quill.Operators
import Quill.Proofs.Arguments.Agreement
import Quill.Proofs.Arguments.Assignable
import Quill.Proofs.Arguments.Filling
import Quill.Proofs.Arguments.Kept
import Quill.Proofs.Arguments.Matched
import Quill.Proofs.Arguments.Placed
import Quill.Proofs.Arithmetic.Quotient
import Quill.Proofs.Assignability.Exchange
import Quill.Proofs.Assignability.Keys
import Quill.Proofs.Assignability.Literals
import Quill.Proofs.Assignability.Made
import Quill.Proofs.Assignability.Parentheses
import Quill.Proofs.Assignability.Reflexive
import Quill.Proofs.Assignability.Rules
import Quill.Proofs.Assignability.Same
import Quill.Proofs.Assignability.Transitive
import Quill.Proofs.Assignability.Union
import Quill.Proofs.Assignability.Widened
import Quill.Proofs.Binding.Clean
import Quill.Proofs.Binding.Known
import Quill.Proofs.Binding.Numbers
import Quill.Proofs.Binding.Refused
import Quill.Proofs.Binding.Regular
import Quill.Proofs.Binding.Resolved
import Quill.Proofs.Binding.Rules
import Quill.Proofs.Binding.Statements
import Quill.Proofs.Checking.Covered
import Quill.Proofs.Checking.Objects
import Quill.Proofs.Checking.Reached
import Quill.Proofs.Checking.Stores
import Quill.Proofs.Checking.Visited
import Quill.Proofs.Codec.Accepted
import Quill.Proofs.Codec.Emitted
import Quill.Proofs.Codec.Nesting
import Quill.Proofs.Codec.Primitives
import Quill.Proofs.Codec.RoundTrip
import Quill.Proofs.Codec.Truncated
import Quill.Proofs.Evaluation.Agreement
import Quill.Proofs.Evaluation.Chains
import Quill.Proofs.Evaluation.Control
import Quill.Proofs.Evaluation.Direct
import Quill.Proofs.Evaluation.Pieces
import Quill.Proofs.Flow.Nested
import Quill.Proofs.Flow.Optimized
import Quill.Proofs.Flow.Pieces
import Quill.Proofs.Folding.Agreement
import Quill.Proofs.Folding.Sessions
import Quill.Proofs.Folding.Settled
import Quill.Proofs.Folding.Windows
import Quill.Proofs.Lexing.Blanks
import Quill.Proofs.Lexing.Division
import Quill.Proofs.Lexing.Lexemes
import Quill.Proofs.Lexing.Readers
import Quill.Proofs.Lexing.Strings
import Quill.Proofs.Limits.Course
import Quill.Proofs.Limits.Depth
import Quill.Proofs.Limits.Steps
import Quill.Proofs.Mutability.Assigned
import Quill.Proofs.Mutability.Assignments
import Quill.Proofs.Offsets.Beginnings
import Quill.Proofs.Offsets.EmptyBlocks
import Quill.Proofs.Offsets.Reentry
import Quill.Proofs.Offsets.Skipped
import Quill.Proofs.Parsing.Braced
import Quill.Proofs.Parsing.Counted
import Quill.Proofs.Parsing.Forest
import Quill.Proofs.Parsing.Numbered
import Quill.Proofs.Parsing.Numerals
import Quill.Proofs.Parsing.Parsed
import Quill.Proofs.Parsing.Plain
import Quill.Proofs.Parsing.ReadBack
import Quill.Proofs.Parsing.Spelled
import Quill.Proofs.Parsing.StatementsReadBack
import Quill.Proofs.Parsing.Takes
import Quill.Proofs.Parsing.TypesReadBack
import Quill.Proofs.Parsing.TypesSpelled
import Quill.Proofs.Parsing.Unplaced
import Quill.Proofs.Parsing.Written
import Quill.Proofs.Returning.Declared
import Quill.Proofs.Returning.Flow
import Quill.Proofs.Returning.Functions
import Quill.Proofs.Returning.Generated
import Quill.Proofs.Returning.Own
import Quill.Proofs.Returning.Steps
import Quill.Proofs.Reuse.Agreement
import Quill.Proofs.Reuse.Frames
import Quill.Proofs.Reuse.TailCalls
import Quill.Proofs.Scoping.Assignment
import Quill.Proofs.Scoping.Calls
import Quill.Proofs.Scoping.Context
import Quill.Proofs.Scoping.Declared
import Quill.Proofs.Scoping.Generated
import Quill.Proofs.Scoping.History
import Quill.Proofs.Scoping.Scenes
import Quill.Proofs.Scoping.Shows
import Quill.Proofs.Scoping.Steps
import Quill.Proofs.Scoping.Tables
import Quill.Proofs.Simulation.Arguments
import Quill.Proofs.Simulation.Faults
import Quill.Proofs.Simulation.Frames
import Quill.Proofs.Simulation.Link
import Quill.Proofs.Simulation.Scopes
import Quill.Proofs.Skipping.Malformed
import Quill.Proofs.Skipping.Noted
import Quill.Proofs.Skipping.Reported
import Quill.Proofs.Soundness.Context
import Quill.Proofs.Soundness.Fragment
import Quill.Proofs.Soundness.Generated
import Quill.Proofs.Soundness.Operators
import Quill.Proofs.Soundness.Sound
import Quill.Proofs.Soundness.Static
import Quill.Proofs.Soundness.Steps
import Quill.Proofs.Soundness.Types
import Quill.Proofs.Soundness.Variables
import Quill.Proofs.Soundness.Views
import Quill.Proofs.Sources.Agreement
import Quill.Proofs.Sources.Shapes
import Quill.Proofs.Typing.Calls
import Quill.Proofs.Typing.Context
import Quill.Proofs.Typing.Discipline
import Quill.Proofs.Typing.Fragments
import Quill.Proofs.Typing.Generated
import Quill.Proofs.Typing.Instructions
import Quill.Proofs.Typing.Lengths
import Quill.Proofs.Typing.Optimized
import Quill.Proofs.Typing.Programs
import Quill.Proofs.Typing.Sound
import Quill.Proofs.Typing.Steps
import Quill.ScopeHeap
import Quill.Session
import Quill.Symbols
import Quill.Syntax
import Quill.Syntax.Arena
import Quill.Syntax.ParseError
import Quill.Syntax.Parser
import Quill.Text.Classes
import Quill.Text.Visible
import Quill.Text.Write
import Quill.Token
import Quill.Token.Dump
import Quill.Token.Lexer
import Quill.Ty
import Quill.Ty.Assignable
import Quill.Ty.Print
import Quill.Value
import Quill.Value.Apply
