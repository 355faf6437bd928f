import Quill.Bind
import Quill.Check
import Quill.Code.Generate
import Quill.Code.Optimize
import Quill.Syntax.Arena
import Quill.Syntax.Parser
import Quill.Token.Lexer

/-! Compilation: from a source text to code, through all passes. An error in a pass ends it; the
passes after parsing report all their errors together. -/
namespace Quill

inductive CompileError where
  | lexer (e : LexError)
  | parser (e : ParseError)
  | diagnostics (ds : Diagnostics)

def CompileError.message : CompileError → String
  | lexer e => "lexer error: " ++ e.message
  | parser e => "parse error: " ++ e.message
  | diagnostics ds => ds.text

structure Compiled where
  program : Program
  code : Code
  warnings : Diagnostics

def Compiled.spans (c : Compiled) : List Span := c.program.spans

def parseSource (source : String) : Except CompileError Program :=
  match lex source with
  | .error e => .error (.lexer e)
  | .ok tokens =>
    match parse tokens with
    | .error e => .error (.parser e)
    | .ok program => .ok program

def compileProgram (program : Program) (folding : Bool) : Except CompileError Compiled :=
  let (bound, faults) := bind program
  let ds : Diagnostics := faults ++ Bound.check bound
  if ds.hasErrors then .error (.diagnostics ds)
  else
    let (code, rejections) := Bound.generate bound
    let ds : Diagnostics := ds ++ rejections
    if ds.hasErrors then .error (.diagnostics ds)
    else .ok ⟨program, if folding then optimize code else code, ds⟩

def compile (source : String) (folding : Bool) : Except CompileError Compiled := do
  compileProgram (← parseSource source) folding

end Quill
