/-! Matching arguments to parameters: those without a name fill the parameters in order, those with
a name fill the parameter of that name. -/
namespace Quill

inductive ArgMatch where
  | param (index : Nat)
  -- There are fewer parameters than arguments without a name.
  | surplus
  | unknown (name : String)
  | again (index : Nat)
  deriving DecidableEq, Repr

namespace ArgMatch

def one (params : List String) (filled : List Nat) (position : Nat) (name : Option String) :
    ArgMatch :=
  let fill (index : Nat) := if index ∈ filled then again index else param index
  match name with
  | none => if position < params.length then fill position else surplus
  | some name =>
    match params.findIdx? (· = name) with
    | some index => fill index
    | none => unknown name

def index? : ArgMatch → Option Nat
  | param index => some index
  | _ => none

def all (params : List String) (filled : List Nat) (position : Nat) :
    List (Option String) → List ArgMatch
  | [] => []
  | name :: rest =>
    let found := one params filled position name
    found :: all params (found.index?.toList ++ filled) (if name.isNone then position + 1 else position)
      rest

end ArgMatch

def matchArguments (params : List String) (args : List (Option String)) : List ArgMatch :=
  ArgMatch.all params [] 0 args

end Quill
