import Mathlib
import Quill.Proofs.Folding.Doubles
import Quill.Proofs.Lexing.Readers
import Quill.Proofs.Parsing.Parsed

/-! Numerals stand for numbers. A float is read from digits as a quotient, or rounded from one, and
neither is ever not-a-number. -/
namespace Quill.Number
open Float.Model Float.Model.UnpackedFloat

theorem packNumber {x : UnpackedFloat} (number : x ≠ .notANumber) :
    ¬ NotNumber (UnpackedFloat.pack .binary64 x) := by
  rintro ⟨full, rest⟩
  have infinite (s : Sign) (packed : UnpackedFloat.pack .binary64 x = packedInfinity .binary64 s) :
      False := by
    rw [packed, packedInfinity, unpackMantissa_packComponents] at rest
    exact rest rfl
  cases x with
  | notANumber => exact number rfl
  | infinity s => exact infinite s rfl
  | zero s =>
    rw [UnpackedFloat.pack, packedZero, unpackExponent_packComponents] at full
    exact absurd full (by decide)
  | finite s m e positive =>
    unfold UnpackedFloat.pack at full infinite
    dsimp only at full infinite
    split at full
    · exact infinite s (if_pos ‹_›)
    · rename_i small
      split at full
      · rw [unpackExponent_packComponents] at full
        have same := congrArg BitVec.toNat full
        rw [BitVec.toNat_ofNat] at same
        change _ % 2 ^ 11 = 2 ^ 11 - 1 at same
        change ¬ 2 ^ 11 ≤ _ at small
        rw [Nat.mod_eq_of_lt (by omega)] at same
        omega
      · rw [unpackExponent_packComponents] at full
        exact absurd full (by decide)

theorem roundedNumber (s : Sign) (m : Nat) (e : Int) (accuracy : Accuracy) :
    roundWithAccuracy .binary64 s m e accuracy ≠ .notANumber := by
  unfold roundWithAccuracy
  dsimp only
  split <;> nofun

theorem wholeNumber (n : Int) : UnpackedFloat.ofInt .binary64 n ≠ .notANumber := by
  unfold UnpackedFloat.ofInt UnpackedFloat.normalize
  split
  · exact roundedNumber _ _ _ _
  · nofun
  · exact roundedNumber _ _ _ _

def hasMantissa : UnpackedFloat → Bool
  | .finite .. => true
  | _ => false

theorem ratioNumber {x y : UnpackedFloat} (number : x ≠ .notANumber) (divides : hasMantissa y) :
    UnpackedFloat.div .binary64 x y ≠ .notANumber := by
  cases y with
  | notANumber | infinity | zero => cases divides
  | finite =>
    cases x with
    | notANumber => exact absurd rfl number
    | infinity | zero => nofun
    | finite => exact roundedNumber _ _ _ _

theorem packedNumber {x : UnpackedFloat} (number : x ≠ .notANumber) :
    (Float.ofModel (Float.Model.pack x)).isNaN = false := by
  rw [Bool.eq_false_iff, Ne, isNaNIff]
  exact packNumber number

theorem scientificNumber (m : Nat) (e : Int) :
    UnpackedFloat.ofScientific .binary64 m e ≠ .notANumber := by
  unfold UnpackedFloat.ofScientific
  split
  · nofun
  split
  · nofun
  split
  · nofun
  split <;> exact roundedNumber _ _ _ _

theorem powersDivide : ∀ p ∈ Float.exactlyRepresentablePowersOfTen,
    hasMantissa p.toModel.unpack := by
  decide +kernel

theorem fractionNumber (m e : Nat) : (Float.ofScientific m true e).isNaN = false := by
  unfold Float.ofScientific
  split
  · refine packedNumber (ratioNumber (fun none => ?_) (powersDivide _ (Array.getElem_mem _)))
    exact packNumber (wholeNumber _) (notNumberUnpacked none)
  · exact packedNumber (scientificNumber _ _)

end Quill.Number

namespace Quill

def Literal.Numeric (v : Literal) : Prop := ∀ x, v = .float x → x.isNaN = false

namespace Lexer

def Numeric (t : Token) : Prop := ∀ x, t = .float x → x.isNaN = false

theorem Lexical.numeric {t : Token} (lexical : Lexical t) : Numeric t := by
  rintro x rfl
  cases lexical
  exact Number.fractionNumber _ _

theorem scanNumeric {place : Span} {cs : List Char} {tokens : List Spanned}
    (scanned : scan place cs = .ok tokens) : ∀ t ∈ tokens, Numeric t.token := by
  fun_induction scan generalizing tokens with
  | case1 place cs rest =>
    cases scanned
    exact List.forall_mem_singleton.mpr nofun
  | case2 | case3 => cases scanned
  | case4 place cs here c rest _ r read more behind =>
    rename_i ih
    cases scanned
    exact List.forall_mem_cons.mpr ⟨(readTokenLexical read).numeric, ih behind⟩

end Lexer

theorem literalNumeric {t : Token} (numeric : Lexer.Numeric t) {v : Literal}
    (literal : Parser.literal? t = some v) : v.Numeric := by
  intro x float
  cases t <;> cases literal <;> cases float
  exact numeric x rfl

theorem lexedNumeric {source : String} {tokens : List Spanned} (lexed : lex source = .ok tokens) :
    Supplied Literal.Numeric tokens := fun t held _ literal =>
  literalNumeric (Lexer.scanNumeric lexed t held) literal

theorem sourceNumeric {source : String} {program : Program}
    (parsed : parseSource source = .ok program) : stmtsWritten Literal.Numeric program := by
  obtain ⟨tokens, lexed, read⟩ := parsedSource parsed
  exact parsedWritten (lexedNumeric lexed) read

end Quill
