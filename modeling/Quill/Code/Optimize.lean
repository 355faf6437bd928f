import Quill.Value.Apply

/-! Constant folding. One pass over the code replaces an operator that follows its constant operands
by its result, unless a jump lands inside; results are operands of what follows in turn. Jumps are
moved to where their targets went. Code in operands is folded on its own. -/
namespace Quill

structure Kept where
  instr : Instr
  origin : Nat

namespace Kept

def opcode (k : Kept) : Opcode := k.instr.opcode

def constant? (k : Kept) : Option Value :=
  if k.opcode = .push then Value.ofOperand? k.instr.operand else none

end Kept

def nanBits? : Operand → Option UInt64
  | .double bits => if (Float.ofBits bits).isNaN then some bits else none
  | _ => none

/-- The bits of a result that is not a number: those of the first such operand, or else the sign bit
is set. Negation changes the sign. -/
def nanResult (op : Opcode) (operands : List Operand) : UInt64 :=
  match operands.findSome? nanBits? with
  | some bits => if op = .neg then bits ^^^ 0x8000000000000000 else bits
  | none => 0xfff8000000000000

def resultOperand? (op : Opcode) (operands : List Operand) (result : Except ApplyError Value) :
    Option Operand :=
  match result with
  | .ok (.float x) => some (.double (if x.isNaN then nanResult op operands else x.toBits))
  | .ok value => value.operand?
  | .error _ => none

def foldBinary? (targets : List Nat) (op right left : Kept) : Option Kept := do
  if !op.opcode.isBinary || op.origin ∈ targets || right.origin ∈ targets then none
  else
    let result ← resultOperand? op.opcode [left.instr.operand, right.instr.operand]
      (Value.binary op.opcode (← left.constant?) (← right.constant?))
    return ⟨.mk .push result op.instr.source, left.origin⟩

def foldUnary? (targets : List Nat) (op operand : Kept) : Option Kept := do
  if !op.opcode.isUnary || op.origin ∈ targets then none
  else
    let result ← resultOperand? op.opcode [operand.instr.operand]
      (Value.unary op.opcode (← operand.constant?))
    return ⟨.mk .push result op.instr.source, operand.origin⟩

/-- Adds an instruction to those kept, last first. A fold leaves a constant, with which nothing
below folds, so one is enough. -/
def keep (targets : List Nat) (out : List Kept) (k : Kept) : List Kept :=
  match out with
  | right :: left :: rest =>
    match foldBinary? targets k right left with
    | some folded => folded :: rest
    | none =>
      match foldUnary? targets k right with
      | some folded => folded :: left :: rest
      | none => k :: right :: left :: rest
  | [operand] =>
    match foldUnary? targets k operand with
    | some folded => [folded]
    | none => [k, operand]
  | [] => [k]

/-- Keeps instructions from `ip` on after those in `out`, and gives the position of each, and of the
end, among those kept. -/
def keepAll (targets : List Nat) (ip : Nat) (out : List Kept) : Code → List Kept × List Nat
  | [] => (out.reverse, [out.length])
  | i :: rest =>
    let (kept, positions) := keepAll targets (ip + 1) (keep targets out ⟨i, ip⟩) rest
    (kept, out.length :: positions)

/-- A jump now at `index`, to where its target went. Jumps out of the code stay as they are. -/
def relocate (length : Nat) (positions : List Nat) (index : Nat) (k : Kept) : Instr :=
  let position := (k.instr.target? k.origin length).bind fun target => positions[target]?
  match position with
  | some position =>
    .mk k.opcode (.int (Int32.ofInt (position - (index + 1)))) k.instr.source
  | none => k.instr

def foldConstants (code : Code) : Code :=
  let (kept, positions) := keepAll (jumpTargets code) 0 [] code
  kept.zipIdx.map fun (k, index) => relocate code.length positions index k

mutual

def Operand.optimize : Operand → Operand
  | .code body => .code (foldConstants (optimizeInstrs body))
  | .list items => .list (optimizeOperands items)
  | .tuple a b => .tuple a.optimize b.optimize
  | .null => .null
  | .bool b => .bool b
  | .int n => .int n
  | .long n => .long n
  | .double bits => .double bits
  | .str s => .str s
  | .char c => .char c

def optimizeOperands : List Operand → List Operand
  | [] => []
  | x :: rest => x.optimize :: optimizeOperands rest

def Instr.optimize : Instr → Instr
  | .mk opcode operand source => .mk opcode operand.optimize source

def optimizeInstrs : List Instr → List Instr
  | [] => []
  | i :: rest => i.optimize :: optimizeInstrs rest

end

def optimize (code : Code) : Code := foldConstants (optimizeInstrs code)

end Quill
