import Quill.Code.Opcode

/-! Code of the stack machine: sequences of instructions, whose operands may hold further code. -/
namespace Quill

mutual

inductive Operand where
  | null
  | bool (b : Bool)
  -- Jump offsets.
  | int (n : Int32)
  | long (n : Int64)
  | double (bits : UInt64)
  | str (s : String)
  | char (c : Char)
  | code (body : List Instr)
  | list (items : List Operand)
  | tuple (first second : Operand)

inductive Instr where
  | mk (opcode : Opcode) (operand : Operand) (source : Option Nat)

end

abbrev Code := List Instr

instance : Inhabited Operand := ⟨.null⟩

def Instr.opcode : Instr → Opcode
  | .mk opcode _ _ => opcode

def Instr.operand : Instr → Operand
  | .mk _ operand _ => operand

def Instr.source : Instr → Option Nat
  | .mk _ _ source => source

def Operand.text? : Operand → Option String
  | .str s => some s
  | _ => none

def Operand.offset? : Operand → Option Int32
  | .int n => some n
  | _ => none

mutual

/-- Equality without sources; doubles are compared as numbers. -/
def Operand.same : Operand → Operand → Bool
  | .null, .null => true
  | .bool a, .bool b => a == b
  | .int m, .int n => m == n
  | .long m, .long n => m == n
  | .double a, .double b => Float.ofBits a == Float.ofBits b
  | .str s, .str t => s == t
  | .char c, .char d => c == d
  | .code a, .code b => sameCode a b
  | .list a, .list b => sameOperands a b
  | .tuple a b, .tuple c d => a.same c && b.same d
  | _, _ => false

def sameOperands : List Operand → List Operand → Bool
  | [], [] => true
  | a :: as, b :: bs => a.same b && sameOperands as bs
  | _, _ => false

def Instr.same : Instr → Instr → Bool
  | .mk op a _, .mk op' b _ => op == op' && a.same b

def sameCode : List Instr → List Instr → Bool
  | [], [] => true
  | a :: as, b :: bs => a.same b && sameCode as bs
  | _, _ => false

end

def jumpTarget? (ip : Nat) (offset : Int32) (length : Nat) : Option Nat :=
  let target := (ip : Int) + 1 + offset.toInt
  if 0 ≤ target ∧ target ≤ length then some target.toNat else none

def Instr.target? (i : Instr) (ip length : Nat) : Option Nat :=
  if i.opcode.isJump then i.operand.offset?.bind fun offset => jumpTarget? ip offset length
  else none

def jumpTargets (code : Code) : List Nat :=
  code.zipIdx.filterMap fun (i, ip) => i.target? ip code.length

end Quill
