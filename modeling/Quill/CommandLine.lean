import Quill.Code.Listing
import Quill.Session
import Quill.Token.Dump

/-! The command line: what its words ask for, and what is shown and written for it. Reading and
writing files and running the machine are left to the caller. -/
namespace Quill

namespace CommandLine

structure Options where
  colour : Bool
  pretty : Bool
  tokens : Bool
  listing : Bool
  json : Bool
  folding : Bool
  maxCallDepth : Nat
  -- The file that the code is written to instead of running it.
  emit : Option String

inductive Command where
  | usage
  | refuse (message : String)
  | source (file : String) (options : Options)
  | binary (file : String) (options : Options)

def valueOf? (flag : String) : List String → Option String
  | [] => none
  | word :: rest => if word = flag then rest.head? else valueOf? flag rest

def number? (word : String) : Option Nat :=
  let digits := match word.toList with
    | '+' :: rest => rest
    | digits => digits
  if digits ≠ [] ∧ digits.all Char.isDigit then
    let n := digits.foldl (fun n c => 10 * n + (c.toNat - '0'.toNat)) 0
    if n < 1 <<< 64 then some n else none
  else none

def file? : List String → Option String
  | [] => none
  | "--emit" :: _ :: rest | "--max-depth" :: _ :: rest => file? rest
  | word :: rest => if word.toList.head? = some '-' then file? rest else some word

def fileName? (path : String) : Option (List Char) :=
  let parts := path.toList.splitOn '/'
  (parts.filter fun part => part ≠ [] && part ≠ ['.']).getLast?

def extension? (path : String) : Option String := do
  let name ← fileName? path
  let behind := (name.reverse.takeWhile (· ≠ '.')).reverse
  let before := (name.reverse.dropWhile (· ≠ '.')).drop 1
  if before = [] then none else return String.ofList behind

def optionsOf (words : List String) (maxCallDepth : Nat) : Options where
  colour := "--no-color" ∉ words
  pretty := "--pretty" ∈ words
  tokens := "--tokens" ∈ words
  listing := "--bc" ∈ words || "--bytecode" ∈ words
  json := "--json" ∈ words
  folding := "--no-opt" ∉ words
  maxCallDepth := maxCallDepth
  emit := valueOf? "--emit" words

def commandOf (words : List String) (options : Options) : Command :=
  match file? words with
  | none => .usage
  | some file =>
    match extension? file with
    | some "ql" => .source file options
    | some "qbc" => .binary file options
    | _ => .refuse ("Error: expected a .ql or .qbc file, got " ++ file)

def parse (words : List String) : Command :=
  if words = [] ∨ "--help" ∈ words ∨ "-h" ∈ words then .usage
  else
    match valueOf? "--max-depth" words with
    | none => commandOf words (optionsOf words Limits.standard.maxCallDepth)
    | some depth =>
      match number? depth with
      | some n => commandOf words (optionsOf words n)
      | none => .refuse ("Error: --max-depth expects a number, got " ++ depth)

structure Report where
  stdout : String
  stderr : String
  code : UInt8

namespace Report

def empty : Report := ⟨"", "", 0⟩

def print (r : Report) (text : String) : Report := { r with stdout := r.stdout ++ text }

def complain (r : Report) (line : String) : Report := { r with stderr := r.stderr ++ line ++ "\n" }

def failed (r : Report) : Report := { r with code := 1 }

def diagnostics (r : Report) (json : Bool) (ds : Diagnostics) : Report :=
  if ds.isEmpty then r
  else if json then r.print (ds.json ++ "\n")
  else r.complain ds.text

def writeFailed (r : Report) (file reason : String) : Report :=
  (r.complain ("Failed to write '" ++ file ++ "': " ++ reason)).failed

def finish (r : Report) (json : Bool) : Transition → Report
  | .running _ => r
  | .ended m => r.diagnostics json m.diagnostics
  | .failed m e =>
    (if json then r.diagnostics true m.diagnostics else r.complain e.message).failed

end Report

inductive Stage where
  | done (report : Report)
  | write (report : Report) (file : String) (bytes : Bytes)
  | run (report : Report) (session : Session)

def usageText : String := String.join (List.map (· ++ "\n") [
  "QUILL - statically checked scripting language",
  "",
  "Usage:",
  "  quill <file.ql>                Compile and run a program",
  "  quill <file.qbc>               Run a compiled program",
  "  quill --tokens <file.ql>       Show tokens only (--no-color, --pretty)",
  "  quill --bc <file.ql>           Print the disassembly before running",
  "  quill --emit <out.qbc> <file>  Write the binary format instead of running",
  "  quill --no-opt <file.ql>       Skip constant folding",
  "  quill --json <file.ql>         Print diagnostics as JSON",
  "  quill --max-depth <n> <file>   Override the call depth limit",
  "  quill --help, -h               Show this help"])

def Options.session (o : Options) : Session :=
  .new { Limits.standard with maxCallDepth := o.maxCallDepth } none

def showTokens (o : Options) (source : String) : Report :=
  match lex source with
  | .ok tokens => Report.empty.print (DumpStyle.dump ⟨o.colour, o.pretty⟩ tokens)
  | .error e => (Report.empty.complain ("Lexer error: " ++ e.message)).failed

def compileFailed (o : Options) : CompileError → Report
  | .diagnostics ds => (Report.empty.diagnostics o.json ds).failed
  | e => (Report.empty.complain e.message).failed

def list (o : Options) (r : Report) (code : Code) : Report :=
  if o.listing then r.print (Quill.listing code) else r

def startSource (o : Options) (source : String) : Stage :=
  if o.tokens then .done (showTokens o source)
  else
    match compile source o.folding with
    | .error e => .done (compileFailed o e)
    | .ok c =>
      let r := list o (Report.empty.diagnostics o.json c.warnings) c.code
      match o.emit with
      | some file => .write r file (encode c.code)
      | none => .run r (o.session.loadCompiled c)

/-- Code that cannot be read is not complained of where diagnostics are shown as JSON, unless a
listing is asked for. -/
def startBinary (o : Options) (bytes : Bytes) : Stage :=
  match decode bytes with
  | .ok code => .run (list o .empty code) (o.session.load code)
  | .error e =>
    let r := if o.json && !o.listing then Report.empty
      else Report.empty.complain ("bytecode error: " ++ e.message)
    .done r.failed

namespace Command

def file? : Command → Option String
  | usage | refuse _ => none
  | source file _ | binary file _ => some file

def json : Command → Bool
  | usage | refuse _ => false
  | source _ o | binary _ o => o.json

def start (command : Command) (content : Except String Bytes) : Stage :=
  match command, content with
  | usage, _ => .done (Report.empty.print usageText)
  | refuse message, _ => .done (Report.empty.complain message).failed
  | source file _, .error reason =>
    .done (Report.empty.complain ("Failed to read '" ++ file ++ "': " ++ reason)).failed
  | source file o, .ok bytes =>
    match Codec.stringOf? bytes with
    | some text => startSource o text
    | none =>
      .done (Report.empty.complain
        ("Failed to read '" ++ file ++ "': stream did not contain valid UTF-8")).failed
  | binary _ _, .error reason => .done (Report.empty.complain ("I/O error: " ++ reason)).failed
  | binary _ o, .ok bytes => startBinary o bytes

end Command

end CommandLine

end Quill
