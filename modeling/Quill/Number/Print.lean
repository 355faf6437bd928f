import Quill.Number.Shortest

/-! The printed forms of doubles: all use the shortest digits that read back, and differ in where
they put the point. -/
namespace Quill.Number

def decimalDigits (n : Nat) : List Char := Nat.toDigits 10 n

structure Format where
  -- Written after whole numbers in positional form.
  wholeMark : String
  -- The powers of ten between which the positional form is used, if it has limits: the leading
  -- digit's power lies in the closed range.
  positional : Option (Int × Int)
  deriving DecidableEq, Repr

def Format.plain : Format := ⟨"", none⟩

/-- Always recognisable as a floating-point number; an exponent from 10 ^ 16 on and below
10 ^ -4. -/
def Format.marked : Format := ⟨".0", some (-4, 15)⟩

def Decimal.positional (d : Decimal) (wholeMark : String) : String :=
  let digits := decimalDigits d.coefficient
  if 0 ≤ d.exponent then
    String.ofList (digits ++ List.replicate d.exponent.toNat '0') ++ wholeMark
  else
    let places := (-d.exponent).toNat
    let whole := digits.length - places
    let behind := List.replicate (places - digits.length) '0' ++ digits.drop whole
    String.ofList ((if whole = 0 then ['0'] else digits.take whole) ++ '.' :: behind)

def Decimal.scientific (d : Decimal) : String :=
  let digits := decimalDigits d.coefficient
  let power := d.exponent + (digits.length - 1 : Nat)
  let behind := if digits.length ≤ 1 then [] else '.' :: digits.drop 1
  String.ofList (digits.take 1 ++ behind) ++ "e" ++ toString power

def Decimal.print (format : Format) (d : Decimal) : String :=
  let power := d.exponent + ((decimalDigits d.coefficient).length - 1 : Nat)
  match format.positional with
  | none => d.positional format.wholeMark
  | some (low, high) =>
    if d.coefficient = 0 ∨ low ≤ power ∧ power ≤ high then d.positional format.wholeMark
    else d.scientific

def signed (negative : Bool) (text : String) : String := if negative then "-" ++ text else text

def print (format : Format) (x : Float) : String :=
  match Binary64.ofFloat x with
  | .nan => "NaN"
  | .infinite negative => signed negative "inf"
  | .finite negative m e => signed negative ((shortest m e).print format)

def printValue (x : Float) : String :=
  match Binary64.ofFloat x with
  | .finite negative m e =>
    if isWhole x then
      signed negative (toString ((m <<< e.toNat) >>> (-e).toNat) ++ ".0")
    else print .plain x
  | _ => print .plain x

end Quill.Number
