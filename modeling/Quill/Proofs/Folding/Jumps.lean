import Quill.Proofs.Folding.Layout

/-! Instructions that folding keeps as they are, but for jumps, which are moved to where their
targets went. -/
namespace Quill

variable {code : Code}

theorem constantPush {k : Kept} {v : Value} (constant : k.constant? = some v) :
    k.opcode = .push ∧ Value.ofOperand? k.instr.operand = some v := by
  unfold Kept.constant? at constant
  split at constant
  · exact ⟨‹_›, constant⟩
  · cases constant

theorem standsForCases {targets : List Nat} {k : Kept} {width : Nat}
    (block : StandsFor targets code k width) :
    width = 1 ∧ code[k.origin]? = some k.instr ∨ ∃ v, k.constant? = some v := by
  cases block with
  | single found => exact .inl ⟨rfl, found⟩
  | binary first second joined last found folds =>
    obtain ⟨-, -, -, _, _, v, x, -, -, -, constant, rfl⟩ := foldedBinary folds
    exact .inr ⟨v, constant⟩
  | unary first last found folds =>
    obtain ⟨-, -, _, v, x, -, -, constant, rfl⟩ := foldedUnary folds
    exact .inr ⟨v, constant⟩

theorem standsForReturn {targets : List Nat} {k : Kept} {width : Nat}
    (block : StandsFor targets code k width) :
    ∃ i, code[k.origin]? = some i ∧ (i.opcode = .ret ↔ k.opcode = .ret) := by
  induction block with
  | single found => exact ⟨_, found, Iff.rfl⟩
  | binary first second joined last found folds ih _ =>
    obtain ⟨-, -, -, _, _, v, x, left, -, -, -, rfl⟩ := foldedBinary folds
    obtain ⟨i, at_, same⟩ := ih
    have push := (constantPush left).1
    refine ⟨i, at_, same.trans ?_⟩
    rw [push]
    exact Iff.rfl
  | unary first last found folds ih =>
    obtain ⟨-, -, _, v, x, operand, -, -, rfl⟩ := foldedUnary folds
    obtain ⟨i, at_, same⟩ := ih
    have push := (constantPush operand).1
    refine ⟨i, at_, same.trans ?_⟩
    rw [push]
    exact Iff.rfl

section
variable {p : Nat} {k : Kept}

theorem movedOpcode : (moved code p k).opcode = k.opcode := by
  unfold moved relocate
  simp only
  split <;> rfl

theorem movedSource : (moved code p k).source = k.instr.source := by
  unfold moved relocate
  simp only
  split <;> rfl

theorem movedStays (stays : k.instr.target? k.origin code.length = none) :
    moved code p k = k.instr := by
  unfold moved relocate
  simp only [stays, Option.bind_none]

theorem movedOther (other : ¬ k.opcode.isJump) : moved code p k = k.instr :=
  movedStays (if_neg other)

theorem movedJump {t q : Nat} (target : k.instr.target? k.origin code.length = some t)
    (position : (keepAll (jumpTargets code) 0 [] code).2[t]? = some q) :
    moved code p k = .mk k.opcode (.int (Int32.ofInt (q - (p + 1)))) k.instr.source := by
  unfold moved relocate
  simp only [target, Option.bind_some, position]

end

theorem originLess {p q : Nat} (inside : p ≤ (keptOf code).length)
    (less : originAt code p < originAt code q) : p < q := by
  by_contra order
  have gap := originGap (Nat.not_lt.mp order) inside
  omega

theorem movedTarget {p q ip t : Nat} {offset : Int32} (inside : p < (keptOf code).length)
    (inside' : q ≤ (keptOf code).length)
    (next : originAt code (p + 1) = ip + 1) (there : originAt code q = t)
    (target : jumpTarget? ip offset code.length = some t) :
    jumpTarget? p (Int32.ofInt (q - (p + 1))) (keptOf code).length = some q := by
  -- A jump of the folded code is no longer than the one it comes from.
  obtain ⟨-, distance⟩ := jumpTargetBound target
  have shorter : ip + 1 ≤ t ∧ p + 1 ≤ q ∧ (q : Int) - (p + 1) ≤ t - (ip + 1) ∨
      t < ip + 1 ∧ q < p + 1 ∧ (p : Int) + 1 - q ≤ ip + 1 - t := by
    by_cases ahead : ip + 1 ≤ t
    · have order : p + 1 ≤ q := by
        by_contra behind
        have gap := @originGap code q (p + 1) (by omega) inside
        omega
      have gap := @originGap code _ _ order inside'
      exact .inl (by omega)
    · have order := @originLess code q (p + 1) inside' (by omega)
      have gap := @originGap code q (p + 1) (by omega) inside
      exact .inr (by omega)
  have low := offset.le_toInt
  have high := offset.toInt_lt
  exact jumpReaches (by omega) inside' (by omega) (by omega)

end Quill
