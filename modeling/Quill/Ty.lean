import Quill.Token

/-! Types: immutable values compared by structure. -/
namespace Quill

inductive Primitive where
  | int | float | string | char | bool | none
  deriving DecidableEq, Repr

namespace Primitive

def name : Primitive → String
  | int => "int"
  | float => "float"
  | string => "string"
  | char => "char"
  | bool => "bool"
  | none => "none"

def all : List Primitive := [int, float, string, char, bool, none]

def ofName? (name : String) : Option Primitive := all.find? (·.name = name)

end Primitive

inductive LitValue where
  | int (n : Int64)
  | float (x : Float)
  | string (s : String)
  | char (c : Char)
  | bool (b : Bool)
  deriving DecidableEq, Repr

namespace LitValue

def kind : LitValue → Primitive
  | int _ => .int
  | float _ => .float
  | string _ => .string
  | char _ => .char
  | bool _ => .bool

/-- Floats are the same as in arithmetic: the two zeros are, not-a-number never is. -/
def same : LitValue → LitValue → Bool
  | int m, int n => m = n
  | float x, float y => x == y
  | string s, string t => s = t
  | char c, char d => c = d
  | bool a, bool b => a = b
  | _, _ => false

end LitValue

mutual

inductive Ty where
  | any
  | primitive (p : Primitive)
  | literal (value : LitValue)
  | named (name : String) (args : List Ty)
  | array (element : Ty)
  | function (params : List TyParam) (ret : Ty)
  | interface (name : Option String) (members : List TyMember) (index : List TyIndex)
  | union (members : List Ty)
  | intersection (members : List Ty)
  | parenthesized (inner : Ty)

inductive TyParam where
  | mk (name : String) (type : Ty) (hasDefault : Bool)

inductive TyMember where
  | mk (key : PropertyName) (type : Ty) (mutable : Bool)

inductive TyIndex where
  | mk (kind : Primitive) (type : Ty)

end

instance : Inhabited Ty := ⟨.any⟩

def TyParam.name : TyParam → String
  | .mk name _ _ => name

def TyParam.type : TyParam → Ty
  | .mk _ type _ => type

def TyParam.hasDefault : TyParam → Bool
  | .mk _ _ hasDefault => hasDefault

def TyMember.key : TyMember → PropertyName
  | .mk key _ _ => key

def TyMember.type : TyMember → Ty
  | .mk _ type _ => type

def TyIndex.kind : TyIndex → Primitive
  | .mk kind _ => kind

def TyIndex.type : TyIndex → Ty
  | .mk _ type => type

namespace Ty

abbrev int : Ty := primitive .int
abbrev float : Ty := primitive .float
abbrev string : Ty := primitive .string
abbrev char : Ty := primitive .char
abbrev bool : Ty := primitive .bool
abbrev none : Ty := primitive .none

mutual

/-- Structural equality. Members and index signatures of an interface count as maps, so their
order does not matter. -/
def same : Ty → Ty → Bool
  | any, any => true
  | primitive p, primitive q => p = q
  | literal v, literal w => v.same w
  | named n args, named m args' => n = m && allSame args args'
  | array a, array b => a.same b
  | function ps r, function qs s => paramsSame ps qs && r.same s
  | interface n ms is, interface m ms' is' =>
    n = m && ms.length = ms'.length && membersSame ms ms' &&
      is.length = is'.length && indexSame is is'
  | union ms, union ms' => allSame ms ms'
  | intersection ms, intersection ms' => allSame ms ms'
  | parenthesized a, parenthesized b => a.same b
  | _, _ => false

def allSame : List Ty → List Ty → Bool
  | [], [] => true
  | a :: as, b :: bs => a.same b && allSame as bs
  | _, _ => false

def paramsSame : List TyParam → List TyParam → Bool
  | [], [] => true
  | .mk n a d :: ps, .mk m b e :: qs => n = m && a.same b && d = e && paramsSame ps qs
  | _, _ => false

def membersSame : List TyMember → List TyMember → Bool
  | [], _ => true
  | .mk k a m :: rest, others =>
    (match others.find? (·.key = k) with
      | some (.mk _ b m') => a.same b && m = m'
      | .none => false) && membersSame rest others

def indexSame : List TyIndex → List TyIndex → Bool
  | [], _ => true
  | .mk k a :: rest, others =>
    (match others.find? (·.kind = k) with
      | some (.mk _ b) => a.same b
      | .none => false) && indexSame rest others

end

def insertNew (types : List Ty) (t : Ty) : List Ty :=
  if types.any (·.same t) then types else types ++ [t]

def alternatives : Ty → List Ty
  | union ms => ms
  | t => [t]

/-- The union of some types, without duplicates; one member stands for itself and no member
is `none`. -/
def unionOf (types : List Ty) : Ty :=
  match (types.flatMap alternatives).foldl insertNew [] with
  | [] => none
  | [t] => t
  | ts => union ts

def unwrapParens : Ty → Ty
  | parenthesized inner => inner.unwrapParens
  | t => t

def widen (t : Ty) : Ty :=
  match t.unwrapParens with
  | literal v => primitive v.kind
  | other => other

def isAny (t : Ty) : Bool :=
  match t.unwrapParens with
  | any => true
  | _ => false

end Ty

def insertMember (members : List TyMember) (m : TyMember) : List TyMember :=
  if members.any (·.key = m.key) then members.map fun old => if old.key = m.key then m else old
  else members ++ [m]

def insertIndex (index : List TyIndex) (i : TyIndex) : List TyIndex :=
  if index.any (·.kind = i.kind) then index.map fun old => if old.kind = i.kind then i else old
  else index ++ [i]

def PropertyName.kind : PropertyName → Primitive
  | name _ => .string
  | int _ => .int

def lookupMember (members : List TyMember) (index : List TyIndex) (key : PropertyName) :
    Option Ty :=
  match members.find? (·.key = key) with
  | some m => some m.type
  | none => (index.find? (·.kind = key.kind)).map (·.type)

end Quill
