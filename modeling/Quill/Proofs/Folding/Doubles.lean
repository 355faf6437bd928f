import Quill.Code.Optimize
import Mathlib.Data.List.Basic
import Mathlib.Data.Nat.Log

/-! Doubles and their bits. A double is read back from its bits, and what is not a number from the
bits of anything that is none. -/
namespace Quill.Number
open Float.Model Float.Model.UnpackedFloat

abbrev Bits := BitVec Format.binary64.numBits

theorem signKept (sign : BitVec 1) : (Sign.ofBitVec sign).toBitVec = sign := by
  revert sign
  decide

theorem ofNatToNat {n : Nat} (x : BitVec n) : BitVec.ofNat n x.toNat = x := by
  rw [BitVec.ofNat_toNat, BitVec.setWidth_eq]

theorem partsTogether (b : Bits) :
    packComponents .binary64 (Sign.ofBitVec (unpackSign b)) (unpackExponent b) (unpackMantissa b) =
      b := by
  unfold packComponents
  rw [signKept]
  unfold unpackSign unpackExponent unpackMantissa BitVec.extractLsb
  ext i bound
  grind

theorem packedFrom {b : Bits} {exponent : BitVec 11} {mantissa : BitVec 52}
    (exponents : unpackExponent b = exponent) (mantissas : unpackMantissa b = mantissa) :
    packComponents .binary64 (Sign.ofBitVec (unpackSign b)) exponent mantissa = b := by
  rw [← exponents, ← mantissas]
  exact partsTogether b

theorem packFinite (sign : Sign) (mantissa biased : Nat) (positive : 0 < mantissa)
    (bound : biased < 2047) :
    UnpackedFloat.pack .binary64 (.finite sign mantissa ((biased : Int) - 1075) positive) =
      if mantissa.log2 = 52 then
        packComponents .binary64 sign (BitVec.ofNat 11 biased) (BitVec.ofNat 52 mantissa)
      else packComponents .binary64 sign 0#11 (BitVec.ofNat 52 mantissa) := by
  have exponent : ((biased : Int) - 1075 + (1023 : Nat) + (52 : Nat)).toNat = biased := by omega
  have small : ¬ 2 ^ 11 ≤ biased + 1 := by omega
  unfold UnpackedFloat.pack
  change (if 2 ^ 11 ≤ ((biased : Int) - 1075 + (1023 : Nat) + (52 : Nat)).toNat + 1 then _
    else if mantissa.log2 + 1 = 53 then
      packComponents .binary64 sign
        (BitVec.ofNat 11 ((biased : Int) - 1075 + (1023 : Nat) + (52 : Nat)).toNat) _
    else _) = _
  rw [exponent, if_neg small]
  simp only [Nat.add_right_cancel_iff (m := mantissa.log2) (n := 1) (k := 52)]

theorem packUnpacked {b : Bits} (valid : Format.binary64.Valid b) :
    UnpackedFloat.pack .binary64 (UnpackedFloat.unpack .binary64 b) = b := by
  have mantissaBound : (unpackMantissa b).toNat < 2 ^ 52 := (unpackMantissa b).isLt
  have exponentBound : (unpackExponent b).toNat < 2 ^ 11 := (unpackExponent b).isLt
  unfold UnpackedFloat.unpack
  dsimp only
  by_cases full : unpackExponent b = -1#11
  · rw [if_pos full]
    by_cases empty : unpackMantissa b = 0#52
    · rw [if_pos empty]
      exact packedFrom full empty
    · rw [if_neg empty]
      exact (valid.eq_packedNaN full empty).symm
  rw [if_neg full]
  have notFull : (unpackExponent b).toNat ≠ 2047 := fun same =>
    full (BitVec.eq_of_toNat_eq same)
  by_cases zero : unpackExponent b = 0#11
  · rw [if_pos zero]
    by_cases empty : unpackMantissa b = 0#52
    · rw [dif_pos empty]
      exact packedFrom zero empty
    · rw [dif_neg empty]
      have positive : 0 < (unpackMantissa b).toNat :=
        Nat.pos_of_ne_zero fun none => empty (BitVec.eq_of_toNat_eq none)
      have log : (unpackMantissa b).toNat.log2 ≠ 52 :=
        ((Nat.log2_lt positive.ne').mpr mantissaBound).ne
      have least : ((unpackExponent b).toNat : Int) - ((1023 : Nat) + (52 : Nat)) + 1 =
          (1 : Nat) - 1075 := by
        rw [zero]
        rfl
      change UnpackedFloat.pack _ (.finite _ _
        (((unpackExponent b).toNat : Int) - ((1023 : Nat) + (52 : Nat)) + 1) _) = b
      rw [least, packFinite _ _ _ positive (by decide), if_neg log]
      exact packedFrom zero (ofNatToNat _).symm
  · rw [if_neg zero]
    have whole : (1#1 ++ unpackMantissa b).toNat = 2 ^ 52 + (unpackMantissa b).toNat := by
      rw [BitVec.toNat_append, ← Nat.shiftLeft_add_eq_or_of_lt mantissaBound]
      rfl
    have log : (2 ^ 52 + (unpackMantissa b).toNat).log2 = 52 := by
      rw [Nat.log2_eq_iff (by omega)]
      omega
    change UnpackedFloat.pack _ (.finite _ _
      (((unpackExponent b).toNat : Int) - 1075) _) = b
    rw [packFinite _ _ _ _ (by omega), whole, if_pos log]
    refine packedFrom (ofNatToNat _).symm ?_
    apply BitVec.eq_of_toNat_eq
    rw [BitVec.toNat_ofNat]
    change _ = (2 ^ 52 + (unpackMantissa b).toNat) % 2 ^ 52
    omega

theorem bitsValid (x : Float) : Format.binary64.Valid x.toBits.toBitVec := by
  obtain ⟨⟨bits, valid⟩⟩ := x
  exact valid

theorem bitsInjective {x y : Float} (same : x.toBits = y.toBits) : x = y := by
  obtain ⟨⟨bits, valid⟩⟩ := x
  obtain ⟨⟨bits', valid'⟩⟩ := y
  cases show bits = bits' from same
  rfl

theorem ofBitsToBits (x : Float) : Float.ofBits x.toBits = x := by
  have same := packUnpacked (bitsValid x)
  apply bitsInjective
  exact congrArg UInt64.ofBitVec same

def NotNumber (b : Bits) : Prop := unpackExponent b = -1#11 ∧ unpackMantissa b ≠ 0#52

theorem unpackNotNumber {b : Bits} (none : NotNumber b) :
    UnpackedFloat.unpack .binary64 b = .notANumber := by
  unfold UnpackedFloat.unpack
  dsimp only
  rw [if_pos none.1, if_neg none.2]

theorem notNumberUnpacked {b : Bits} (none : UnpackedFloat.unpack .binary64 b = .notANumber) :
    NotNumber b := by
  unfold UnpackedFloat.unpack at none
  dsimp only at none
  by_cases full : unpackExponent b = -1#11
  · rw [if_pos full] at none
    by_cases empty : unpackMantissa b = 0#52
    · rw [if_pos empty] at none
      cases none
    · exact ⟨full, empty⟩
  rw [if_neg full] at none
  by_cases zero : unpackExponent b = 0#11
  · rw [if_pos zero] at none
    by_cases empty : unpackMantissa b = 0#52
    · rw [dif_pos empty] at none
      cases none
    · rw [dif_neg empty] at none
      cases none
  · rw [if_neg zero] at none
    cases none

theorem isNaNIff (x : Float) : x.isNaN ↔ NotNumber x.toBits.toBitVec := by
  change (UnpackedFloat.unpack .binary64 x.toBits.toBitVec).isNaN = true ↔ _
  constructor
  · intro none
    apply notNumberUnpacked
    cases found : UnpackedFloat.unpack .binary64 x.toBits.toBitVec with
    | notANumber => rfl
    | _ => rw [found] at none; cases none
  · intro none
    rw [unpackNotNumber none]
    rfl

theorem notNumberUnique {x y : Float} (left : x.isNaN) (right : y.isNaN) : x = y := by
  rw [isNaNIff] at left right
  refine bitsInjective (UInt64.toBitVec_inj.mp ?_)
  rw [(bitsValid x).eq_packedNaN left.1 left.2, (bitsValid y).eq_packedNaN right.1 right.2]

theorem ofBitsNotNumber (bits : UInt64) : (Float.ofBits bits).isNaN ↔ NotNumber bits.toBitVec := by
  rw [isNaNIff]
  change NotNumber (UnpackedFloat.pack .binary64 (UnpackedFloat.unpack .binary64 bits.toBitVec)) ↔ _
  by_cases none : NotNumber bits.toBitVec
  · rw [unpackNotNumber none]
    exact iff_of_true ⟨by decide, by decide⟩ none
  · rw [packUnpacked ⟨fun full rest => (none ⟨full, rest⟩).elim⟩]

theorem negatedNotNumber {bits : UInt64} (none : (Float.ofBits bits).isNaN) :
    (Float.ofBits (bits ^^^ 0x8000000000000000)).isNaN := by
  rw [ofBitsNotNumber] at none ⊢
  obtain ⟨full, rest⟩ := none
  have exponent : @unpackExponent .binary64 (bits ^^^ 0x8000000000000000).toBitVec =
      @unpackExponent .binary64 bits.toBitVec := by
    change BitVec.extractLsb 62 52 (bits.toBitVec ^^^ 0x8000000000000000#64) =
      BitVec.extractLsb 62 52 bits.toBitVec
    rw [BitVec.extractLsb_xor]
    exact BitVec.xor_zero
  have mantissa : @unpackMantissa .binary64 (bits ^^^ 0x8000000000000000).toBitVec =
      @unpackMantissa .binary64 bits.toBitVec := by
    change BitVec.extractLsb 51 0 (bits.toBitVec ^^^ 0x8000000000000000#64) =
      BitVec.extractLsb 51 0 bits.toBitVec
    rw [BitVec.extractLsb_xor]
    exact BitVec.xor_zero
  exact ⟨exponent.trans full, fun empty => rest (mantissa.symm.trans empty)⟩

end Quill.Number

namespace Quill

theorem nanResultNotNumber (op : Opcode) (operands : List Operand) :
    (Float.ofBits (nanResult op operands)).isNaN := by
  unfold nanResult
  cases found : operands.findSome? nanBits? with
  | none =>
    change (Float.ofBits 0xfff8000000000000).isNaN
    rw [Number.ofBitsNotNumber]
    exact ⟨by decide, by decide⟩
  | some bits =>
    obtain ⟨x, -, given⟩ := List.exists_of_findSome?_eq_some found
    have none : (Float.ofBits bits).isNaN := by
      unfold nanBits? at given
      split at given
      · split at given
        · rename_i none
          cases given
          exact none
        · cases given
      · cases given
    simp only
    split
    · exact Number.negatedNotNumber none
    · exact none

theorem resultConstant {op : Opcode} {operands : List Operand} {result : Except ApplyError Value}
    {x : Operand} (folded : resultOperand? op operands result = some x) :
    ∃ v, result = .ok v ∧ Value.ofOperand? x = some v := by
  unfold resultOperand? at folded
  split at folded
  · rename_i y
    cases folded
    refine ⟨.float y, rfl, ?_⟩
    rw [Value.ofOperand?]
    by_cases none : y.isNaN
    · rw [if_pos none, Number.notNumberUnique (nanResultNotNumber op operands) none]
    · rw [if_neg none, Number.ofBitsToBits]
  · rename_i v _
    refine ⟨v, rfl, ?_⟩
    cases v <;> cases folded <;> first | rfl | rw [Value.ofOperand?, Number.ofBitsToBits]
  · cases folded

end Quill
