import Quill.Proofs.Evaluation.Chains
import Quill.Proofs.Soundness.Views

/-! Variables with values of their types. Assignments of such values keep them so, and definitions
do with the type of what they define. -/
namespace Quill

def VarsTyped (vars : List (String × Value)) (types : List (String × Ty)) : Prop :=
  ∀ n, Option.Rel (fun v t => v.2.HasType t.2) (vars.find? (·.1 = n)) (types.find? (·.1 = n))

def Chain.Typed (chain : Chain) (types : TypedNames) : Prop := List.Forall₂ VarsTyped chain types

namespace VarsTyped

variable {vars : List (String × Value)} {types : List (String × Ty)} {n : String} {v : Value}
  {type : Ty}

theorem define (typed : VarsTyped vars types) (has : v.HasType type) :
    VarsTyped (ScopeFrame.setIn n v vars) ((n, type) :: types) := by
  intro m
  rw [setInFound, List.find?_cons]
  by_cases same : n = m
  · rw [if_pos same, decide_eq_true same]
    exact .some has
  · rw [if_neg same, decide_eq_false same]
    exact typed m

theorem assign {x : String × Ty} (typed : VarsTyped vars types)
    (declared : types.find? (·.1 = n) = some x) (has : v.HasType x.2) :
    VarsTyped (ScopeFrame.setIn n v vars) types := by
  intro m
  rw [setInFound]
  by_cases same : n = m
  · rw [if_pos same, ← same, declared]
    exact .some has
  · rw [if_neg same]
    exact typed m

theorem declares (typed : VarsTyped vars types) (n : String) :
    (∃ v t, vars.find? (·.1 = n) = some v ∧ types.find? (·.1 = n) = some t ∧ v.2.HasType t.2) ∨
      vars.find? (·.1 = n) = none ∧ types.find? (·.1 = n) = none := by
  have both := typed n
  generalize vars.find? (·.1 = n) = v at both ⊢
  generalize types.find? (·.1 = n) = t at both ⊢
  cases both with
  | some has => exact .inl ⟨_, _, rfl, rfl, has⟩
  | none => exact .inr ⟨rfl, rfl⟩

end VarsTyped

namespace Chain.Typed

variable {chain : Chain} {types : TypedNames} {n : String} {v : Value} {type : Ty}

theorem get (typed : chain.Typed types) (declared : typeOf? types n = some type) :
    ∃ v, chain.get? n = some v ∧ v.HasType type := by
  induction typed with
  | nil => cases declared
  | @cons vars known chain types first _ ih =>
    rw [typeOf?] at declared
    rw [Chain.get?]
    rcases first.declares n with ⟨v, t, value, type, has⟩ | ⟨value, type⟩
    · rw [type] at declared
      cases declared
      rw [value]
      exact ⟨v.2, rfl, has⟩
    · rw [type] at declared
      rw [value]
      exact ih declared

theorem update (typed : chain.Typed types) (declared : typeOf? types n = some type)
    (has : v.HasType type) : ∃ updated, chain.update? n v = some updated ∧ updated.Typed types := by
  induction typed with
  | nil => cases declared
  | @cons vars known chain types first others ih =>
    rw [typeOf?] at declared
    rw [Chain.update?]
    rcases first.declares n with ⟨w, t, value, same, _⟩ | ⟨value, same⟩
    · rw [same] at declared
      cases declared
      have here : vars.any (·.1 = n) = true := by
        rcases ScopeHeap.findDeclared vars n with ⟨_, _, here⟩ | ⟨missing, _⟩
        · exact here
        · cases value.symm.trans missing
      rw [if_pos here]
      exact ⟨_, rfl, .cons (first.assign same has) others⟩
    · rw [same] at declared
      have missing : ¬ vars.any (·.1 = n) = true := by
        rcases ScopeHeap.findDeclared vars n with ⟨_, found, _⟩ | ⟨_, missing⟩
        · cases value.symm.trans found
        · exact missing
      obtain ⟨updated, found, typed⟩ := ih declared
      rw [if_neg missing, found]
      exact ⟨_, rfl, .cons first typed⟩

theorem assign (typed : chain.Typed types) (declared : typeOf? types n = some type)
    (has : v.HasType type) : (chain.assign n v).Typed types := by
  obtain ⟨updated, found, typed⟩ := typed.update declared has
  rw [Chain.assign, found]
  exact typed

theorem define {inner : List (String × Ty)} (typed : chain.Typed (inner :: types))
    (has : v.HasType type) : (chain.define n v).Typed (((n, type) :: inner) :: types) := by
  cases typed with
  | cons first others => exact .cons (first.define has) others

theorem opened (typed : chain.Typed types) : Chain.Typed ([] :: chain) ([] :: types) :=
  .cons (fun _ => .none) typed

end Chain.Typed

end Quill
