import Quill.Code
import Quill.Intrinsic
import Quill.Number.Print
import Quill.Text.Write

/-! Values: what a program computes with. Objects and functions have an identity, by which they are
compared. -/
namespace Quill

/-- Where code stands: the unit that was loaded, and from there inwards the numbers of the
instructions that hold it and of its slot in them, innermost first. -/
@[ext]
structure Place where
  unit : Nat
  path : List Nat
  deriving DecidableEq, Repr

namespace Place

def ofUnit (unit : Nat) : Place := ⟨unit, []⟩

def inner (p : Place) (ip slot : Nat) : Place := { p with path := slot :: ip :: p.path }

end Place

structure Routine where
  code : Code
  place : Place

structure ClosureParam where
  name : String
  default : Option Routine

structure Closure where
  id : Nat
  params : List ClosureParam
  body : Routine
  scope : Nat

mutual

inductive Value where
  | none
  | bool (b : Bool)
  | int (n : Int64)
  | float (x : Float)
  | str (s : String)
  | char (c : Char)
  -- Entries have different keys and keep the order in which the keys came.
  | object (id : Nat) (entries : List Entry)
  | function (closure : Closure)
  | intrinsic (i : Intrinsic)

inductive Entry where
  | mk (key : PropertyName) (value : Value)

end

instance : Inhabited Value := ⟨.none⟩

def Entry.key : Entry → PropertyName
  | .mk key _ => key

def Entry.value : Entry → Value
  | .mk _ value => value

def setEntry (entries : List Entry) (key : PropertyName) (value : Value) : List Entry :=
  match entries with
  | [] => [.mk key value]
  | e :: rest => if e.key = key then .mk key value :: rest else e :: setEntry rest key value

def valueAt? (entries : List Entry) (key : PropertyName) : Option Value :=
  (entries.find? (·.key = key)).map Entry.value

namespace Value

def typeName : Value → String
  | none => "none"
  | bool _ => "bool"
  | int _ => "int"
  | float _ => "float"
  | str _ => "string"
  | char _ => "char"
  | object .. => "object"
  | function _ => "function"
  | intrinsic _ => "intrinsic"

def truthy : Value → Bool
  | bool b => b
  | int n => n != 0
  | float x => x != 0.0
  | _ => true

def number? : Value → Option Float
  | int n => some n.toFloat
  | float x => some x
  | _ => .none

def text? : Value → Option String
  | str s => some s
  | char c => some c.toString
  | _ => .none

/-- The key that a value stands for. A whole double is the key of the integer, or of the nearest
one that there is. -/
def key? : Value → Option PropertyName
  | int n => some (.int n)
  | float x => if Number.isWhole x then some (.int x.toInt64) else .none
  | str s => some (.name s)
  | char c => some (.name c.toString)
  | _ => .none

/-- Equality as programs see it: of integers exact, of other numbers as doubles, of objects and
functions by identity. -/
def same : Value → Value → Bool
  | none, none => true
  | bool a, bool b => a == b
  | int m, int n => m == n
  | int m, float y => m.toFloat == y
  | float x, int n => x == n.toFloat
  | float x, float y => x == y
  | str s, str t => s == t
  | char c, char d => c == d
  | object a _, object b _ => a == b
  | function f, function g => f.id == g.id
  | intrinsic i, intrinsic j => i == j
  | _, _ => false

end Value

mutual

def Value.text : Value → String
  | .none => "none"
  | .bool b => if b then "true" else "false"
  | .int n => toString n
  | .float x => Number.printValue x
  | .str s => s
  | .char c => c.toString
  | .object _ entries => "\x7b " ++ Text.commas (entryTexts entries) ++ " \x7d"
  | .function f => "<fn/" ++ toString f.params.length ++ ">"
  | .intrinsic i => "<intrinsic " ++ i.name ++ ">"

def entryTexts : List Entry → List String
  | [] => []
  | .mk key value :: rest => (key.text ++ ": " ++ value.text) :: entryTexts rest

end

end Quill
