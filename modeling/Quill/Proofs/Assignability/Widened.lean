import Quill.Proofs.Assignability.Rules

/-! Widened types. A type fits wherever it does widened, and its widened type itself; the other way
round this is so only of types that are no literals. -/
namespace Quill

namespace Ty

theorem unwrappedLeft (a b : Ty) : a.unwrapParens.assignableTo b = a.assignableTo b := by
  induction Throughout.all (fun _ => trivial) a with
  | @intro a here inside ih =>
    cases a with
    | parenthesized inner =>
      rw [unwrapParens, parensLeft]
      exact ih inner List.mem_cons_self
    | _ => rfl

theorem unwrappedRight (a b : Ty) : a.assignableTo b.unwrapParens = a.assignableTo b := by
  induction Throughout.all (fun _ => trivial) b with
  | @intro b here inside ih =>
    cases b with
    | parenthesized inner =>
      rw [unwrapParens, parensRight]
      exact ih inner List.mem_cons_self
    | _ => rfl

theorem literalFitsKind (v : LitValue) : (literal v).assignableTo (primitive v.kind) = true := by
  rw [assignableTo]
  exact decide_eq_true rfl

theorem literalFits {v : LitValue} {b : Ty} (fits : (primitive v.kind).assignableTo b = true) :
    (literal v).assignableTo b = true := by
  have kind : (primitive v.kind).Core := trivial
  have value : (literal v).Core := trivial
  induction Throughout.all (fun _ => trivial) b with
  | @intro b here inside ih =>
    cases b.shaped with
    | any => exact anyRight _
    | union bs =>
      obtain ⟨b, held, fits⟩ := (unionRight kind.single).mp fits
      exact (unionRight value.single).mpr ⟨b, held, ih b held fits⟩
    | intersection bs =>
      have each := (intersectionRight kind.single).mp fits
      exact (intersectionRight value.single).mpr fun b held => ih b held (each b held)
    | parenthesized inner =>
      rw [parensRight] at fits ⊢
      exact ih inner List.mem_cons_self fits
    | core core =>
      cases (matches_iff kind core).mp fits
      exact literalFitsKind v

section
variable {t b : Ty}

theorem widenCases (t : Ty) : (∃ v, t.unwrapParens = literal v ∧ t.widen = primitive v.kind) ∨
    (∀ v, t.unwrapParens ≠ literal v) ∧ t.widen = t.unwrapParens := by
  unfold widen
  cases t.unwrapParens with
  | literal v => exact .inl ⟨v, rfl, rfl⟩
  | _ => exact .inr ⟨nofun, rfl⟩

theorem widenedFits (other : ∀ v, t.unwrapParens ≠ literal v) (b : Ty) :
    t.widen.assignableTo b = t.assignableTo b := by
  rcases widenCases t with ⟨v, same, -⟩ | ⟨-, same⟩
  · exact absurd same (other v)
  · rw [same, unwrappedLeft]

theorem narrowFits (fits : t.widen.assignableTo b = true) : t.assignableTo b = true := by
  rcases widenCases t with ⟨v, same, widened⟩ | ⟨other, -⟩
  · rw [← unwrappedLeft, same]
    exact literalFits (widened ▸ fits)
  · exact widenedFits other b ▸ fits

theorem fitsWidened (self : t.assignableTo t = true) : t.assignableTo t.widen = true := by
  rcases widenCases t with ⟨v, same, widened⟩ | ⟨-, same⟩
  · rw [widened, ← unwrappedLeft, same]
    exact literalFitsKind v
  · rwa [same, unwrappedRight]

end

end Ty

end Quill
