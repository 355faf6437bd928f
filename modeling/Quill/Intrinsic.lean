import Quill.Operators

/-! The built-in functions: their names, their parameters and what they return. -/
namespace Quill

inductive Intrinsic where
  | print | len | str | sqrt | assert
  deriving DecidableEq, Repr

namespace Intrinsic

def all : List Intrinsic := [print, len, str, sqrt, assert]

def name : Intrinsic → String
  | print => "print"
  | len => "len"
  | str => "str"
  | sqrt => "sqrt"
  | assert => "assert"

def ofName? (name : String) : Option Intrinsic := all.find? (·.name = name)

def params : Intrinsic → List (String × Ty)
  | print => [("value", .any)]
  | len => [("value", .string)]
  | str => [("value", .any)]
  | sqrt => [("value", Operators.number)]
  | assert => [("condition", .bool), ("message", .string)]

def returns : Intrinsic → Ty
  | print => .none
  | len => .int
  | str => .string
  | sqrt => .float
  | assert => .none

def paramNames (i : Intrinsic) : List String := i.params.map (·.1)

def signature (i : Intrinsic) : Ty :=
  .function (i.params.map fun (name, type) => .mk name type false) i.returns

end Intrinsic

end Quill
