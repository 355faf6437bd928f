import Quill.Machine.Call
import Quill.Proofs.Simulation.Scopes

/-! Arguments of two runs that correspond are matched to parameters alike. -/
namespace Quill

section
variable (R : Routine → Routine → Prop)

structure Argument.Alike (a b : Argument) : Prop where
  name : a.name = b.name
  value : a.value.Alike R b.value

abbrev SlotsAlike : List (Option Value) → List (Option Value) → Prop :=
  List.Forall₂ (Option.Rel (Value.Alike R))

def SlotAlike (p q : ClosureParam × Option Value) : Prop :=
  p.1.Alike R q.1 ∧ Option.Rel (Value.Alike R) p.2 q.2

end

variable {R : Routine → Routine → Prop}

theorem setAlike {v v' : Value} {slots slots' : List (Option Value)}
    (index : Nat) (value : v.Alike R v') (alike : SlotsAlike R slots slots') :
    SlotsAlike R (slots.set index (some v)) (slots'.set index (some v')) := by
  induction alike generalizing index with
  | nil => exact .nil
  | cons head tail ih =>
    cases index with
    | zero => exact .cons (.some value) tail
    | succ index => exact .cons head (ih index)

theorem placeAlike {args args' : List Argument} (params : List String)
    (alike : List.Forall₂ (Argument.Alike R) args args') {position : Nat}
    {slots slots' : List (Option Value)} (given : SlotsAlike R slots slots') :
    AnswersAlike (SlotsAlike R) (placeArguments params position slots args)
      (placeArguments params position slots' args') := by
  induction alike generalizing position slots slots' with
  | nil => exact .ok given
  | @cons a a' as as' head _ ih =>
    have place (index next : Nat) : AnswersAlike (SlotsAlike R)
        (if index < slots.length then placeArguments params next (slots.set index (some a.value)) as
          else .error (.tooManyArguments params.length (index + 1)))
        (if index < slots'.length then
          placeArguments params next (slots'.set index (some a'.value)) as'
          else .error (.tooManyArguments params.length (index + 1))) := by
      rw [given.length_eq]
      by_cases fits : index < slots'.length
      · rw [if_pos fits, if_pos fits]
        exact ih (setAlike index head.value given)
      · rw [if_neg fits, if_neg fits]
        exact .error _
    rw [placeArguments, placeArguments, ← head.name]
    cases a.name with
    | none => exact place _ _
    | some name =>
      simp only
      cases params.findIdx? (· = name) with
      | none => exact .error _
      | some index => exact place _ _

theorem argumentSlotsAlike {args args' : List Argument} (params : List String)
    (alike : List.Forall₂ (Argument.Alike R) args args') :
    AnswersAlike (SlotsAlike R) (argumentSlots params args) (argumentSlots params args') := by
  refine placeAlike params alike ?_
  induction params.length with
  | zero => exact .nil
  | succ n ih => exact .cons .none ih

theorem requireAllAlike (params : List String) {slots slots' : List (Option Value)}
    (alike : SlotsAlike R slots slots') :
    AnswersAlike (List.Forall₂ (Value.Alike R)) (requireAll (params.zip slots))
      (requireAll (params.zip slots')) := by
  induction alike generalizing params with
  | nil => cases params <;> exact .ok .nil
  | cons head _ ih =>
    cases params with
    | nil => exact .ok .nil
    | cons param params =>
      cases head with
      | none => exact .error _
      | some value => exact (ih params).map fun _ _ rest => .cons value rest

theorem namesAlike {params params' : List ClosureParam}
    (alike : List.Forall₂ (ClosureParam.Alike R) params params') :
    params.map (·.name) = params'.map (·.name) := by
  induction alike with
  | nil => rfl
  | cons head _ ih => rw [List.map_cons, List.map_cons, head.name, ih]

theorem zipAlike {params params' : List ClosureParam} {slots slots' : List (Option Value)}
    (alike : List.Forall₂ (ClosureParam.Alike R) params params')
    (given : SlotsAlike R slots slots') :
    List.Forall₂ (SlotAlike R) (params.zip slots) (params'.zip slots') := by
  induction alike generalizing slots slots' with
  | nil => exact .nil
  | cons head _ ih =>
    cases given with
    | nil => exact .nil
    | cons slot slots => exact .cons ⟨head, slot⟩ (ih slots)

end Quill
