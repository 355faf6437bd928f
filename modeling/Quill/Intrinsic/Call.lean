import Quill.Fault
import Quill.Value

/-! What the built-in functions do with their arguments. -/
namespace Quill.Intrinsic

structure Result where
  value : Value
  printed : String

def expects (i : Intrinsic) (what : String) (got : Value) : Fault :=
  .typeMismatch (i.name ++ "() expects " ++ what ++ ", got " ++ got.typeName)

def printLines (broken : Option String) (lines : List String) : Except Fault Result :=
  match broken, lines with
  | some report, _ :: _ => .error (.output report)
  | _, _ => .ok ⟨.none, String.join (lines.map (· ++ "\n"))⟩

/-- Calls with any number of arguments; those behind the parameters are ignored but by `print`. -/
def call (broken : Option String) (i : Intrinsic) (args : List Value) : Except Fault Result :=
  let give (v : Value) : Except Fault Result := .ok ⟨v, ""⟩
  match i, args with
  | print, args => printLines broken (args.map Value.text)
  | len, .str s :: _ => give (.int (Int64.ofNat s.length))
  | len, .object _ entries :: _ => give (.int (Int64.ofNat entries.length))
  | len, other :: _ => .error (len.expects "a string" other)
  | str, v :: _ => give (.str v.text)
  | sqrt, v :: _ =>
    match v.number? with
    | some x => give (.float x.sqrt)
    | none => .error (sqrt.expects "a number" v)
  | assert, .bool true :: _ => give .none
  | assert, .bool false :: rest => .error (.assertFailed ((rest.head?.map Value.text).getD ""))
  | assert, other :: _ => .error (assert.expects "a bool" other)
  | len, [] | str, [] | sqrt, [] => .error (.missingArgument "value")
  | assert, [] => .error (.missingArgument "condition")

def text (i : Intrinsic) : String :=
  "Intrinsic \x7b name: " ++ "\"" ++ i.name ++ "\", params: " ++ toString i.params.length ++ " \x7d"

end Quill.Intrinsic
