import Quill.Code.Codec
import Mathlib.Algebra.Group.Nat.Defs

/-! Numbers, strings and characters in the binary form: a reader gives back what was written and
leaves the bytes behind it alone. -/
namespace Quill.Codec

theorem bindRead {read : Reader α} {next : α → Reader β} {bytes rest : Bytes} {x : α}
    (found : read bytes = .ok (x, rest)) : (read >>= next) bytes = next x rest := by
  simp only [bind, StateT.bind, found, Except.bind]

theorem bindRefused {read : Reader α} {next : α → Reader β} {bytes : Bytes} {e : DecodeError}
    (refused : read bytes = .error e) : (read >>= next) bytes = .error e := by
  simp only [bind, StateT.bind, refused, Except.bind]

theorem readByteWritten (b : UInt8) (rest : Bytes) : readByte (b :: rest) = .ok (b, rest) := rfl

theorem cutWritten (front back : Bytes) : cut? front.length (front ++ back) = some (front, back) := by
  induction front with
  | nil => rfl
  | cons b front ih => simp [cut?, ih]

theorem readBytesWritten (short : DecodeError) {n : Nat} {front : Bytes} (length : front.length = n)
    (rest : Bytes) : readBytes short n (front ++ rest) = .ok (front, rest) := by
  subst n
  simp only [readBytes, cutWritten]

theorem littleEndianLength (width n : Nat) : (littleEndian width n).length = width := by
  induction width generalizing n with
  | zero => rfl
  | succ width ih => simp [littleEndian, ih]

theorem littleEndianValue {width n : Nat} (bound : n < 256 ^ width) :
    ofLittleEndian (littleEndian width n) = n := by
  induction width generalizing n with
  | zero => simp at bound; simp [littleEndian, ofLittleEndian, bound]
  | succ width ih =>
    have high : n / 256 < 256 ^ width := by
      rw [Nat.pow_succ] at bound
      exact Nat.div_lt_of_lt_mul (by omega)
    have low : (UInt8.ofNat n).toNat = n % 256 := by simp
    simp only [littleEndian, ofLittleEndian, ih high, low]
    omega

theorem readNumberWritten {width n : Nat} (bound : n < 256 ^ width) (rest : Bytes) :
    readNumber width (littleEndian width n ++ rest) = .ok (n, rest) := by
  unfold readNumber
  rw [bindRead (readBytesWritten _ (littleEndianLength width n) rest), littleEndianValue bound]
  rfl

theorem readCountWritten {n : Nat} (bound : n < 2 ^ 32) (rest : Bytes) :
    readCount (count n ++ rest) = .ok (n, rest) :=
  readNumberWritten (by omega) rest

theorem bytesOfString (s : String) : stringOf? s.toUTF8.data.toList = some s := by
  have valid : ByteArray.IsValidUTF8 ⟨s.toUTF8.data⟩ := s.isValidUTF8
  simp only [stringOf?, Array.toArray_toList, String.fromUTF8?, valid, dite_true]
  rfl

theorem readStringWritten (s : String) (bound : s.utf8ByteSize < 2 ^ 32) (rest : Bytes) :
    readString (count s.utf8ByteSize ++ (s.toUTF8.data.toList ++ rest)) = .ok (s, rest) := by
  have length : s.toUTF8.data.toList.length = s.utf8ByteSize := rfl
  unfold readString
  rw [bindRead (readCountWritten bound _), bindRead (readBytesWritten _ length rest)]
  simp only [bytesOfString]
  rfl

theorem charOfBytes (c : Char) : charOf? (String.utf8EncodeChar c) = some c := by
  have same : (⟨(String.utf8EncodeChar c).toArray⟩ : ByteArray) = (String.singleton c).toByteArray := by
    rw [String.toByteArray_singleton, List.utf8Encode_singleton]
    ext1
    simp
  have valid := (String.singleton c).isValidUTF8
  simp only [charOf?, stringOf?, same, String.fromUTF8?, valid, dite_true, Option.bind_some]
  have whole : String.fromUTF8 (String.singleton c).toByteArray valid = String.singleton c := rfl
  rw [whole, String.toList_singleton]
  rfl

theorem charWidthOf {n : Nat} (byte : n < 256) :
    charWidth? (UInt8.ofNat n) =
      if n < 0x80 then some 1 else if n < 0xc0 then none else if n < 0xe0 then some 2
      else if n < 0xf0 then some 3 else if n < 0xf8 then some 4 else none := by
  simp [charWidth?, UInt8.lt_iff_toNat_lt, Nat.mod_eq_of_lt byte]

theorem charWidthOfLead (c : Char) : ∃ lead more, String.utf8EncodeChar c = lead :: more ∧
    charWidth? lead = some (more.length + 1) := by
  have small : c.val.toNat < 0x110000 := by
    rcases c.valid with low | high
    · omega
    · exact high.2
  fun_cases String.utf8EncodeChar with
  | case1 v one =>
    refine ⟨_, _, rfl, ?_⟩
    rw [charWidthOf (by omega), if_pos (by omega)]
    rfl
  | case2 v one two =>
    refine ⟨_, _, rfl, ?_⟩
    rw [charWidthOf (by omega), if_neg (by omega), if_neg (by omega),
      if_pos (by omega)]
    rfl
  | case3 v one two three =>
    refine ⟨_, _, rfl, ?_⟩
    rw [charWidthOf (by omega), if_neg (by omega), if_neg (by omega),
      if_neg (by omega), if_pos (by omega)]
    rfl
  | case4 v one two three =>
    refine ⟨_, _, rfl, ?_⟩
    rw [charWidthOf (by omega), if_neg (by omega), if_neg (by omega),
      if_neg (by omega), if_neg (by omega), if_pos (by omega)]
    rfl

theorem readCharWritten (c : Char) (rest : Bytes) :
    readChar (String.utf8EncodeChar c ++ rest) = .ok (c, rest) := by
  obtain ⟨lead, more, written, width⟩ := charWidthOfLead c
  unfold readChar
  rw [written, List.cons_append, bindRead (readByteWritten lead _)]
  simp only [width, Nat.add_sub_cancel]
  rw [bindRead (readBytesWritten _ rfl rest), ← written, charOfBytes]
  rfl

end Quill.Codec
