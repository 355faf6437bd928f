/-! Double precision numbers read as exact integers times powers of two. -/
namespace Quill.Number

inductive Binary64 where
  | nan
  | infinite (negative : Bool)
  -- Stands for `mantissa · 2 ^ exponent`, with a minus sign if `negative`.
  | finite (negative : Bool) (mantissa : Nat) (exponent : Int)
  deriving DecidableEq, Repr

namespace Binary64

def ofBits (bits : UInt64) : Binary64 :=
  let n := bits.toNat
  let negative : Bool := 1 <<< 63 ≤ n
  let biased : Nat := (n >>> 52) % (1 <<< 11)
  let fraction : Nat := n % (1 <<< 52)
  if biased = 2047 then if fraction = 0 then .infinite negative else .nan
  else if biased = 0 then .finite negative fraction (-1074)
  else .finite negative ((1 <<< 52) + fraction) (biased - 1075)

def ofFloat (x : Float) : Binary64 := ofBits x.toBits

end Binary64

def isFinite (x : Float) : Bool :=
  match Binary64.ofFloat x with
  | .finite .. => true
  | _ => false

def isWhole (x : Float) : Bool := isFinite x && x.floor == x

def remainder (x y : Float) : Float :=
  match Binary64.ofFloat x, Binary64.ofFloat y with
  | .finite negative m e, .finite _ m' e' =>
    if m' = 0 then 0.0 / 0.0
    else
      -- On the finer of the two grids both are integers, and the remainder is below 2 ^ 53.
      let grid := min e e'
      let r := (m <<< (e - grid).toNat) % (m' <<< (e' - grid).toNat)
      let size := (Float.ofNat r).scaleB grid
      if negative then -size else size
  | .finite .., .infinite _ => x
  | _, _ => 0.0 / 0.0

end Quill.Number
