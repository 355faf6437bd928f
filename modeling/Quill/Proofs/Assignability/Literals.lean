import Mathlib
import Quill.Ty

/-! Comparing the values of literal types. It is symmetric and transitive, and a value is the same
as itself unless it is not-a-number. -/
namespace Quill

namespace LitValue

variable {u v w : LitValue}

def isNaN : LitValue → Bool
  | float x => x.isNaN
  | _ => false

theorem same_iff : v.same w = true ↔
    (∃ x y, v = float x ∧ w = float y ∧ (x == y) = true) ∨ (∀ x, v ≠ float x) ∧ v = w := by
  cases v <;> cases w <;> simp [same]

theorem sameSelf (number : v.isNaN = false) : v.same v = true := by
  cases v with
  | float x =>
    rw [isNaN, Float.isNaN_eq_decide_eq_nan] at number
    exact Float.beq_self_iff.mpr (of_decide_eq_false number)
  | _ => simp [same]

theorem sameSymm (same : v.same w = true) : w.same v = true := by
  rcases same_iff.mp same with ⟨x, y, rfl, rfl, same⟩ | ⟨_, rfl⟩
  · exact BEq.symm same
  · exact same

theorem sameTrans (first : u.same v = true) (second : v.same w = true) : u.same w = true := by
  rcases same_iff.mp first with ⟨x, y, rfl, rfl, left⟩ | ⟨_, rfl⟩
  · rcases same_iff.mp second with ⟨y', z, held, rfl, right⟩ | ⟨other, -⟩
    · cases held
      exact BEq.trans left right
    · exact absurd rfl (other y)
  · exact second

theorem sameKind (same : v.same w = true) : v.kind = w.kind := by
  rcases same_iff.mp same with ⟨x, y, rfl, rfl, -⟩ | ⟨-, rfl⟩ <;> rfl

end LitValue

end Quill
