import Quill.Value

/-! What operator instructions compute, and the values that constants stand for. Arithmetic is done
in doubles, except for integer division; bits are those of 64-bit integers, shifts those of 32-bit
ones. -/
namespace Quill

inductive ApplyError where
  | binaryMismatch (op : Opcode) (left right : String)
  | unaryMismatch (op : Opcode) (operand : String)
  | divisionByZero
  deriving DecidableEq, Repr

def ApplyError.message : ApplyError → String
  | binaryMismatch op left right =>
    "operator " ++ op.name ++ " cannot be applied to " ++ left ++ " and " ++ right
  | unaryMismatch op operand => "operator " ++ op.name ++ " cannot be applied to " ++ operand
  | divisionByZero => "division by zero"

def floorDiv (a b : Int64) : Int64 :=
  let quotient := a / b
  if a % b != 0 && (decide (a < 0) != decide (b < 0)) then quotient - 1 else quotient

def shift (f : Int32 → Int32 → Int32) (a b : Int64) : Int64 := (f a.toInt32 b.toInt32).toInt64

namespace Value

def integerQuotient (left right : Value) : Except ApplyError Value :=
  match left, right with
  | int a, int b => if b = 0 then .error .divisionByZero else .ok (int (floorDiv a b))
  | _, _ =>
    match left.number?, right.number? with
    | some a, some b =>
      if b == 0.0 then .error .divisionByZero else .ok (int (a / b).floor.toInt64)
    | _, _ => .error (.binaryMismatch .idiv left.typeName right.typeName)

def binary (op : Opcode) (left right : Value) : Except ApplyError Value :=
  let mismatch := .error (.binaryMismatch op left.typeName right.typeName)
  let numbers (f : Float → Float → Value) :=
    match left.number?, right.number? with
    | some a, some b => .ok (f a b)
    | _, _ => mismatch
  let integers (f : Int64 → Int64 → Int64) :=
    match left, right with
    | int a, int b => .ok (int (f a b))
    | _, _ => mismatch
  let booleans (f : Bool → Bool → Bool) :=
    match left, right with
    | bool a, bool b => .ok (bool (f a b))
    | _, _ => mismatch
  match op with
  | .add =>
    match left.text?, right.text? with
    | some a, some b => .ok (str (a ++ b))
    | _, _ => numbers fun a b => float (a + b)
  | .sub => numbers fun a b => float (a - b)
  | .mul => numbers fun a b => float (a * b)
  | .div => numbers fun a b => float (a / b)
  | .mod => numbers fun a b => float (Number.remainder a b)
  | .pow => numbers fun a b => float (a.pow b)
  | .idiv => integerQuotient left right
  | .band => integers (· &&& ·)
  | .bor => integers (· ||| ·)
  | .bxor => integers (· ^^^ ·)
  | .shl => integers (shift (· <<< ·))
  | .shr => integers (shift (· >>> ·))
  | .and => booleans (· && ·)
  | .or => booleans (· || ·)
  | .eq => .ok (bool (left.same right))
  | .ne => .ok (bool (!left.same right))
  | .lt => numbers fun a b => bool (decide (a < b))
  | .le => numbers fun a b => bool (decide (a ≤ b))
  | .gt => numbers fun a b => bool (decide (b < a))
  | .ge => numbers fun a b => bool (decide (b ≤ a))
  | _ => mismatch

def unary (op : Opcode) (operand : Value) : Except ApplyError Value :=
  match op, operand with
  | .neg, int n => .ok (int (-n))
  | .neg, float x => .ok (float (-x))
  | .pos, int n => .ok (int n)
  | .pos, float x => .ok (float x)
  | .not, bool b => .ok (bool (!b))
  | .bnot, int n => .ok (int (~~~n))
  | .inc, int n => .ok (int (n + 1))
  | .inc, float x => .ok (float (x + 1.0))
  | .dec, int n => .ok (int (n - 1))
  | .dec, float x => .ok (float (x - 1.0))
  | _, _ => .error (.unaryMismatch op operand.typeName)

def ofOperand? : Operand → Option Value
  | .null => some none
  | .bool b => some (bool b)
  | .int n => some (int n.toInt64)
  | .long n => some (int n)
  | .double bits => some (float (Float.ofBits bits))
  | .str s => some (str s)
  | .char c => some (char c)
  | .code _ | .list _ | .tuple _ _ => .none

def operand? : Value → Option Operand
  | none => some .null
  | bool b => some (.bool b)
  | int n => some (.long n)
  | float x => some (.double x.toBits)
  | str s => some (.str s)
  | char c => some (.char c)
  | object .. | function _ | intrinsic _ => .none

end Value

end Quill
