import Quill.Code.Opcode
import Quill.Diagnostic

/-! What goes wrong in a run. A malformed operand is reported and its instruction skipped; every
other fault ends the run. -/
namespace Quill

inductive Fault where
  | callDepth (limit : Nat)
  | stackUnderflow (op : Opcode) (needed : Nat)
  | malformedOperand (op : Opcode) (expected : String)
  | undefinedVariable (name : String)
  | typeMismatch (text : String)
  | notCallable (typeName : String)
  | divisionByZero
  | stepLimit (limit : Nat)
  | stackLimit (limit : Nat)
  | assertFailed (message : String)
  | missingArgument (param : String)
  | unknownArgument (name : String)
  | tooManyArguments (expected found : Nat)
  | output (text : String)
  deriving DecidableEq, Repr

namespace Fault

def code : Fault → DiagnosticCode
  | callDepth _ => .r0001
  | stackUnderflow .. => .r0002
  | malformedOperand .. => .r0003
  | undefinedVariable _ => .r0004
  | typeMismatch _ => .r0005
  | notCallable _ => .r0006
  | divisionByZero => .r0007
  | stepLimit _ | stackLimit _ => .r0008
  | assertFailed _ => .r0009
  | missingArgument _ | unknownArgument _ | tooManyArguments .. => .r0010
  | output _ => .r0011

def isFatal : Fault → Bool
  | malformedOperand .. => false
  | _ => true

def message : Fault → String
  | callDepth limit =>
    "call depth limit exceeded (" ++ toString limit ++ ") - possible infinite recursion"
  | stackUnderflow op needed =>
    "stack underflow: " ++ op.name ++ " needs " ++ toString needed ++ " value(s)"
  | malformedOperand op expected =>
    "malformed operand for " ++ op.name ++ ": expected " ++ expected
  | undefinedVariable name => "undefined variable '" ++ name ++ "'"
  | typeMismatch text => "type error: " ++ text
  | notCallable typeName => "value of type " ++ typeName ++ " is not callable"
  | divisionByZero => "division by zero"
  | stepLimit limit => "execution step limit exceeded (" ++ toString limit ++ ")"
  | stackLimit limit => "stack size limit exceeded (" ++ toString limit ++ ")"
  | assertFailed message => "assertion failed: " ++ message
  | missingArgument param => "missing argument for parameter '" ++ param ++ "'"
  | unknownArgument name => "no parameter named '" ++ name ++ "'"
  | tooManyArguments expected found =>
    "too many arguments: expected at most " ++ toString expected ++ ", got " ++ toString found
  | output text => "output error: " ++ text

def diagnostic (f : Fault) (span : Span) : Diagnostic := .error f.code span f.message

end Fault

/-- A fault with the calls it happened in, outermost first, and the node that is to blame. -/
structure RunError where
  fault : Fault
  callStack : List String
  node : Option Nat
  deriving DecidableEq, Repr

namespace RunError

def runs : List String → List (String × Nat)
  | [] => []
  | x :: rest =>
    match runs rest with
    | (y, n) :: more => if x = y then (y, n + 1) :: more else (x, 1) :: (y, n) :: more
    | [] => [(x, 1)]

def shownLines : Nat := 16

def runLine (index : Nat) (run : String × Nat) : String :=
  "\n    " ++ toString index ++ ": " ++ run.1 ++
    if run.2 > 1 then " (x" ++ toString run.2 ++ ")" else ""

def callStackText (callStack : List String) : String :=
  match runs callStack.reverse with
  | [] => ""
  | all =>
    let lines := (all.take shownLines).zipIdx.map fun (run, index) => runLine index run
    let more := all.length - shownLines
    "\n  call stack:" ++ String.join lines ++
      if more > 0 then "\n    ... " ++ toString more ++ " more" else ""

def message (e : RunError) : String :=
  "runtime error: " ++ e.fault.message ++ callStackText e.callStack

end RunError

end Quill
