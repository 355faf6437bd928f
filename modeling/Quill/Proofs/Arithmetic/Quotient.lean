import Quill.Value.Apply
import Mathlib.Data.Rat.Floor

/-! Quotients of integers. They are rounded down: the quotient rounded toward zero is taken down by
one where something is left over and the signs differ. Only one quotient is too large for an
integer. -/
namespace Quill

section
variable {x y : Int}

theorem floorOfQuotient : ⌊(x : ℚ) / y⌋ = x.fdiv y := by
  have floored (n : Int) {d : Int} (positive : 0 ≤ d) : ⌊(n : ℚ) / d⌋ = n.fdiv d := by
    lift d to Nat using positive
    rw [Int.fdiv_eq_ediv_of_nonneg n (Int.natCast_nonneg d)]
    exact Rat.floor_intCast_div_natCast n d
  rcases le_total 0 y with positive | negative
  · exact floored x positive
  · simpa using floored (-x) (Int.neg_nonneg_of_nonpos negative)

theorem fdivFromTdiv (nonzero : y ≠ 0) : x.fdiv y =
    if x.tmod y ≠ 0 ∧ ¬(x < 0 ↔ y < 0) then x.tdiv y - 1 else x.tdiv y := by
  have divides : y ∣ x ↔ x.tmod y = 0 := Int.dvd_iff_tmod_eq_zero
  rw [Int.fdiv_eq_tdiv]
  rcases lt_or_gt_of_ne nonzero with negative | positive
  · rw [Int.sign_eq_neg_one_of_neg negative]
    grind
  · rw [Int.sign_eq_one_of_pos positive]
    grind

theorem halvedAtLeast (left : x.tmod y ≠ 0) : 2 * (x.tdiv y).natAbs ≤ x.natAbs := by
  have absolute : (x.tdiv y).natAbs = x.natAbs / y.natAbs := Int.natAbs_tdiv ..
  have large : y.natAbs = 0 ∨ 2 ≤ y.natAbs := by
    by_contra small
    obtain rfl | rfl : y = 1 ∨ y = -1 := by omega
    · exact left (Int.tmod_one x)
    · exact left (by simp)
  rw [absolute]
  rcases large with zero | large
  · rw [zero, Nat.div_zero]
    exact Nat.zero_le _
  · calc 2 * (x.natAbs / y.natAbs)
        ≤ y.natAbs * (x.natAbs / y.natAbs) := Nat.mul_le_mul_right _ large
      _ ≤ x.natAbs := Nat.mul_div_le _ _

end

def roundsUp (a b : Int64) : Bool := a % b != 0 && (decide (a < 0) != decide (b < 0))

def exactQuotient (a b : Int64) : Int := ⌊(a.toInt : ℚ) / b.toInt⌋

variable {a b : Int64}

theorem nonzeroToInt (nonzero : b ≠ 0) : b.toInt ≠ 0 :=
  fun zero => nonzero (Int64.toInt_inj.mp zero)

theorem roundsUpIff :
    roundsUp a b = true ↔ a.toInt.tmod b.toInt ≠ 0 ∧ ¬(a.toInt < 0 ↔ b.toInt < 0) := by
  have left : a % b = 0 ↔ a.toInt.tmod b.toInt = 0 := by
    rw [← Int64.toInt_inj, Int64.toInt_mod]
    rfl
  have below (n : Int64) : n < 0 ↔ n.toInt < 0 := Int64.lt_iff_toInt_lt
  simp [roundsUp, left, below]

theorem exactFromQuotient (nonzero : b ≠ 0) : exactQuotient a b =
    if roundsUp a b then a.toInt.tdiv b.toInt - 1 else a.toInt.tdiv b.toInt := by
  rw [exactQuotient, floorOfQuotient, fdivFromTdiv (nonzeroToInt nonzero)]
  simp only [roundsUpIff]

theorem quotientWrapped : a / b = .ofInt (a.toInt.tdiv b.toInt) := by
  rw [← Int64.toInt_inj, Int64.toInt_div, Int64.toInt_ofInt]

theorem floorDivWraps (nonzero : b ≠ 0) : floorDiv a b = .ofInt (exactQuotient a b) := by
  change (if roundsUp a b then a / b - 1 else a / b) = _
  rw [exactFromQuotient nonzero, quotientWrapped]
  split
  · rw [Int64.ofInt_sub]
    rfl
  · rfl

theorem quotientUnwrapped (small : ¬(a = .minValue ∧ b = -1)) :
    (a / b).toInt = a.toInt.tdiv b.toInt := by
  by_cases least : a = .minValue
  · exact Int64.toInt_div_of_ne_right a b fun minus => small ⟨least, minus⟩
  · exact Int64.toInt_div_of_ne_left a b least

theorem floorDivToInt : (floorDiv a b).toInt =
    if roundsUp a b then (a / b).toInt - 1 else (a / b).toInt := by
  -- Taking the quotient down does not overflow: there is something left over then, so that it is at
  -- most half as far from zero as the dividend.
  change Int64.toInt (if roundsUp a b then a / b - 1 else a / b) = _
  split
  case isFalse => rfl
  case isTrue up =>
    have left := (roundsUpIff.mp up).1
    have small : ¬(a = .minValue ∧ b = -1) := by
      rintro ⟨rfl, rfl⟩
      exact left (by decide)
    have half := halvedAtLeast left
    have least := a.le_toInt
    have most := a.toInt_lt
    have one : Int64.toInt 1 = 1 := rfl
    rw [Int64.toInt_sub, quotientUnwrapped small, one]
    exact Int.bmod_eq_of_le_mul_two (by omega) (by omega)

theorem exactFits (nonzero : b ≠ 0) :
    (Int64.ofInt (exactQuotient a b)).toInt = exactQuotient a b ↔ ¬(a = .minValue ∧ b = -1) := by
  constructor
  · rintro fits ⟨rfl, rfl⟩
    rw [exactQuotient, floorOfQuotient] at fits
    revert fits
    decide
  · intro small
    rw [← floorDivWraps nonzero, floorDivToInt, quotientUnwrapped small, exactFromQuotient nonzero]

/-- The quotient of integers is an error just if the divisor is zero. Otherwise it is the exact one,
rounded down and wrapped, which changes it for the least integer over minus one only; and where the
quotient rounded toward zero is taken down by one, nothing wraps. -/
theorem quotientFloors (a b : Int64) :
    (Value.binary .idiv (.int a) (.int b) = .error .divisionByZero ↔ b = 0) ∧
    (b ≠ 0 →
      Value.binary .idiv (.int a) (.int b) = .ok (.int (.ofInt (exactQuotient a b))) ∧
      ((Int64.ofInt (exactQuotient a b)).toInt = exactQuotient a b ↔
        ¬(a = .minValue ∧ b = -1)) ∧
      (floorDiv a b).toInt = if roundsUp a b then (a / b).toInt - 1 else (a / b).toInt) := by
  have computed : Value.binary .idiv (.int a) (.int b) =
      if b = 0 then .error .divisionByZero else .ok (.int (floorDiv a b)) := rfl
  rw [computed]
  refine ⟨by simp, fun nonzero => ⟨?_, exactFits nonzero, floorDivToInt⟩⟩
  rw [if_neg nonzero, floorDivWraps nonzero]

theorem leastQuotientFloors : (3 : Int64) ≠ 0 ∧
    Value.binary .idiv (.int .minValue) (.int 3) = .ok (.int (.ofInt (-3074457345618258603))) ∧
    (floorDiv .minValue 3).toInt = Int64.toInt (.minValue / 3) - 1 := by
  have nonzero : (3 : Int64) ≠ 0 := by decide
  have exact : exactQuotient .minValue 3 = -3074457345618258603 := by
    rw [exactQuotient, floorOfQuotient]
    rfl
  obtain ⟨-, floors⟩ := quotientFloors .minValue 3
  obtain ⟨computed, -, down⟩ := floors nonzero
  rw [exact] at computed
  exact ⟨nonzero, computed, down.trans (if_pos (by decide))⟩

end Quill
