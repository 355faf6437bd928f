import Quill.CommandLine

/-! The program: it reads the file that the command line names, runs the machine and shows what it
prints as it goes. -/
namespace Quill.Main

open CommandLine

def reasonOf : IO.Error → String
  | .noFileOrDirectory _ code _ => s!"No such file or directory (os error {code})"
  | .permissionDenied _ code _ => s!"Permission denied (os error {code})"
  | .inappropriateType _ code _ => s!"Is a directory (os error {code})"
  | e => toString e

def readFile (file : String) : IO (Except String Bytes) := do
  try return .ok (← IO.FS.readBinFile file).data.toList
  catch e => return .error (reasonOf e)

def emit (r : Report) : IO UInt32 := do
  IO.print r.stdout
  (← IO.getStdout).flush
  IO.eprint r.stderr
  return r.code.toUInt32

partial def runToEnd (setup : Setup) (m : Machine) : IO Transition := do
  let show_ (m : Machine) : IO Machine := do
    IO.print m.output
    return { m with output := "" }
  match m.run setup 10000 with
  | .running m => runToEnd setup (← show_ m)
  | .ended m => return .ended (← show_ m)
  | .failed m e => return .failed (← show_ m) e

def perform (json : Bool) : Stage → IO UInt32
  | .done report => emit report
  | .write report file bytes => do
    try
      IO.FS.writeBinFile file ⟨bytes.toArray⟩
      emit report
    catch e => emit (report.writeFailed file (reasonOf e))
  | .run report session => do
    discard (emit report)
    let outcome ← runToEnd session.setup session.machine
    emit (Report.empty.finish json outcome)

end Quill.Main

open Quill in
def main (words : List String) : IO UInt32 := do
  let command := CommandLine.parse words
  let content ← match command.file? with
    | some file => Main.readFile file
    | none => pure (.ok [])
  Main.perform command.json (command.start content)
