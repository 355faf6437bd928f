import Quill.Proofs.Folding.Blocks

/-! Which code of one unit is the optimized form of which in another. Code of further units is the
same in both runs; code of the unit that is run stands for the code in the same slot of the
instruction that the outer one comes from. So code stands at one place in one run just when it does
in the other. -/
namespace Quill

inductive Folded (unit other : Nat) (root : Code) : Routine → Routine → Prop where
  | whole : Folded unit other root ⟨root, .ofUnit unit⟩ ⟨optimize root, .ofUnit other⟩
  | inner {r s : Routine} {ip p slot : Nat} {i : Instr} {code : Code}
      (outer : Folded unit other root r s) (found : r.code[ip]? = some i) (moved : ip = originAt (optimizeInstrs r.code) p)
      (inside : p < (keptOf (optimizeInstrs r.code)).length) (holds : i.slot? slot = some code) :
      Folded unit other root ⟨code, r.place.inner ip slot⟩ ⟨optimize code, s.place.inner p slot⟩

variable {unit other : Nat} {root : Code} {r s r' s' : Routine}

namespace Folded

theorem codes (folded : Folded unit other root r s) : s.code = optimize r.code := by
  cases folded <;> rfl

theorem units (folded : Folded unit other root r s) :
    r.place.unit = unit ∧ s.place.unit = other := by
  induction folded with
  | whole => exact ⟨rfl, rfl⟩
  | inner _ _ _ _ _ ih => exact ih

end Folded

theorem Folded.apart {a : Place} (folded : Folded unit other root r s)
    (old : a.unit ∉ [unit, other]) : a ≠ r.place ∧ a ≠ s.place := by
  obtain ⟨here, there⟩ := folded.units
  constructor <;> rintro rfl
  · simp [here] at old
  · simp [there] at old

end Quill
