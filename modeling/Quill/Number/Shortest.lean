import Quill.Number.Binary64

/-! The shortest decimal that reads back as a given double: of all decimals that round to it those
with the fewest digits, of these the nearest, of two equally near the larger. -/
namespace Quill.Number

structure Decimal where
  coefficient : Nat
  exponent : Int
  deriving DecidableEq, Repr

/-- A positive rational with the open or closed interval of reals that round to it. All four
numbers are over the one denominator `den`. -/
structure Rounding where
  low : Nat
  value : Nat
  high : Nat
  den : Nat
  closed : Bool
  deriving DecidableEq, Repr

namespace Rounding

/-- The interval around `m · 2 ^ e`: half a unit to each side, but a quarter below a power of two,
where the doubles lie twice as close. -/
def ofBinary (m : Nat) (e : Int) : Rounding :=
  let below := if m = 1 <<< 52 ∧ -1074 < e then 1 else 2
  let up := e.toNat
  let down := (-e).toNat
  ⟨(4 * m - below) <<< up, (4 * m) <<< up, (4 * m + 2) <<< up, 4 <<< down, m % 2 = 0⟩

def holds (r : Rounding) (num den' : Nat) : Bool :=
  if r.closed then r.low * den' ≤ num * r.den && num * r.den ≤ r.high * den'
  else r.low * den' < num * r.den && num * r.den < r.high * den'

def onGrid? (r : Rounding) (exponent : Int) : Option Nat :=
  let unit := Nat.pow 10 exponent.toNat
  let parts := Nat.pow 10 (-exponent).toNat
  let floor := r.value * parts / (r.den * unit)
  let above := r.holds ((floor + 1) * unit) parts
  if floor ≠ 0 ∧ r.holds (floor * unit) parts then
    let nearer := (2 * floor + 1) * unit * r.den ≤ 2 * (r.value * parts)
    if above ∧ nearer then some (floor + 1) else some floor
  else if above then some (floor + 1) else none

def magnitude (r : Rounding) : Int :=
  let whole := r.value / r.den
  if 0 < whole then (Nat.toDigits 10 whole).length
  else 1 - (Nat.toDigits 10 ((r.den - 1) / r.value)).length

def search (r : Rounding) (used : Nat) : Nat → Decimal
  | 0 => ⟨0, 0⟩
  | tries + 1 =>
    let exponent := r.magnitude - (used + 1 : Nat)
    match r.onGrid? exponent with
    | some c => ⟨c, exponent⟩
    | none => r.search (used + 1) tries

end Rounding

def Decimal.strip (d : Decimal) : Decimal :=
  go d.coefficient d.coefficient d.exponent
where
  go : Nat → Nat → Int → Decimal
    | 0, c, e => ⟨c, e⟩
    | fuel + 1, c, e => if c ≠ 0 ∧ c % 10 = 0 then go fuel (c / 10) (e + 1) else ⟨c, e⟩

def shortest (m : Nat) (e : Int) : Decimal :=
  if m = 0 then ⟨0, 0⟩ else ((Rounding.ofBinary m e).search 0 17).strip

end Quill.Number
