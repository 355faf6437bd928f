import Quill.Ty
import Quill.Number.Print
import Quill.Text.Write

/-! The text of types. -/
namespace Quill

def LitValue.text : LitValue → String
  | int n => toString n
  | float x => Number.print .marked x
  | string s => Text.quotedString s
  | char c => Text.quotedChar c
  | bool b => if b then "true" else "false"

namespace Ty

def isCompound : Ty → Bool
  | union _ | intersection _ | function _ _ => true
  | _ => false

mutual

def text : Ty → String
  | any => "any"
  | primitive p => p.name
  | literal v => v.text
  | named name [] => name
  | named name args => name ++ "<" ++ Text.commas (texts args) ++ ">"
  | array e => if e.isCompound then "(" ++ e.text ++ ")[]" else e.text ++ "[]"
  | function ps r => "fn(" ++ Text.commas (paramTexts ps) ++ ") -> " ++ r.text
  | interface (some name) _ _ => name
  | interface .none members index =>
    match memberTexts members ++ indexTexts index with
    | [] => "\x7b\x7d"
    | parts => "\x7b " ++ String.intercalate "; " parts ++ " \x7d"
  | union ts => String.intercalate " | " (texts ts)
  | intersection ts => String.intercalate " & " (texts ts)
  | parenthesized t => "(" ++ t.text ++ ")"

def texts : List Ty → List String
  | [] => []
  | t :: rest => t.text :: texts rest

def paramTexts : List TyParam → List String
  | [] => []
  | .mk name t hasDefault :: rest =>
    (name ++ (if hasDefault then "?" else "") ++ ": " ++ t.text) :: paramTexts rest

def memberTexts : List TyMember → List String
  | [] => []
  | .mk key t mutable :: rest =>
    ((if mutable then "mut " else "") ++ key.text ++ ": " ++ t.text) :: memberTexts rest

def indexTexts : List TyIndex → List String
  | [] => []
  | .mk kind t :: rest => ("[" ++ kind.name ++ "]: " ++ t.text) :: indexTexts rest

end

end Ty

end Quill
