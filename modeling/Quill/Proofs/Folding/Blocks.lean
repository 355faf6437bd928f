import Quill.Proofs.Folding.Jumps
import Quill.Proofs.Simulation.Shapes

/-! Blocks that are folded to constants. Where the folded code pushes the constant, the code that it
comes from runs the whole block, and then has the same value on its stack, from the same node. -/
namespace Quill

mutual

theorem optimizeShape : (x : Operand) → x.Shaped (fun c c' => c' = optimize c) x.optimize
  | .null => .flat rfl
  | .bool _ => .flat rfl
  | .int _ => .flat rfl
  | .long _ => .flat rfl
  | .double _ => .flat rfl
  | .str _ => .flat rfl
  | .char _ => .flat rfl
  | .code _ => .code rfl
  | .list items => .list (optimizeShapes items)
  | .tuple a b => .tuple (optimizeShape a) (optimizeShape b)

theorem optimizeShapes : (items : List Operand) →
    OperandsShaped (fun c c' => c' = optimize c) items (optimizeOperands items)
  | [] => .nil
  | x :: rest => .cons (optimizeShape x) (optimizeShapes rest)

end

theorem optimizeAt (code : Code) (ip : Nat) :
    (optimizeInstrs code)[ip]? = code[ip]?.map Instr.optimize := by
  induction code generalizing ip with
  | nil => rfl
  | cons i rest ih =>
    cases ip with
    | zero => rfl
    | succ ip => exact ih ip

theorem optimizeLength (code : Code) : (optimizeInstrs code).length = code.length := by
  induction code with
  | nil => rfl
  | cons i rest ih => exact congrArg (· + 1) ih

theorem optimizeOpcode (i : Instr) : i.optimize.opcode = i.opcode := by
  cases i
  rfl

theorem optimizeSource (i : Instr) : i.optimize.source = i.source := by
  cases i
  rfl

theorem optimizeOperand (i : Instr) : i.optimize.operand = i.operand.optimize := by
  cases i
  rfl

theorem offsetOptimized (x : Operand) : x.optimize.offset? = x.offset? := by
  cases x <;> rfl

namespace Machine

variable {setup : Setup} {m : Machine}

def after (m : Machine) (width : Nat) (stack : List Cell) : Machine :=
  { m with
    steps := m.steps + width
    current := { m.current with stack := stack, ip := m.current.ip + width } }

theorem execOfBinary {i : Instr} (binary : i.opcode.isBinary) :
    m.exec setup i = m.execBinary setup i.opcode := by
  unfold exec
  cases op : i.opcode <;> rw [op] at binary <;> first | rfl | cases binary

theorem execOfUnary {i : Instr} (unary : i.opcode.isUnary) :
    m.exec setup i = m.execUnary setup i.opcode := by
  unfold exec
  cases op : i.opcode <;> rw [op] at unary <;> first | rfl | cases unary

theorem execOfJump {i : Instr} (jump : i.opcode.isJump) : m.exec setup i = m.execJump setup i := by
  unfold exec
  cases op : i.opcode <;> rw [op] at jump <;> first | rfl | cases jump

section
variable {i : Instr} {offset : Int32} {target : Nat} (given : i.operand.offset? = some offset)
  (reached : jumpTarget? m.current.ip offset m.current.routine.code.length = some target)
include given reached

theorem execAlways (op : i.opcode = .jmp) : m.exec setup i = m.jump target m.current.stack := by
  simp only [exec, op, execJump, given, reached]

theorem execConditional {x : Cell} {rest : List Cell} (op : i.opcode = .jz ∨ i.opcode = .jnz)
    (stack : m.current.stack = x :: rest) :
    m.exec setup i = m.jump target rest ∨ m.exec setup i = m.advance rest := by
  have branches (op : Opcode) (taken : Value → Bool) :
      m.execBranch setup op target taken = m.jump target rest ∨
        m.execBranch setup op target taken = m.advance rest := by
    simp only [execBranch, stack]
    cases taken x.value with
    | true => exact .inl rfl
    | false => exact .inr rfl
  rcases op with op | op
  · simp only [exec, op, execJump, given, reached]
    exact branches _ _
  · simp only [exec, op, execJump, given, reached]
    exact branches _ _

end

theorem notAlways {i : Instr} (op : i.opcode = .jz ∨ i.opcode = .jnz) : i.opcode ≠ .jmp := by
  rcases op with op | op <;> (rw [op]; decide)

theorem execPush {i : Instr} {v : Value} (push : i.opcode = .push)
    (constant : Value.ofOperand? i.operand = some v) :
    m.exec setup i = m.push v m.current.stack := by
  simp only [exec, push, constant]

theorem sourceOf {l : Level} {i : Instr} (found : l.instr? = some i) : l.source? = i.source := by
  unfold Level.source?
  rw [found]
  rfl

end Machine

theorem instrOfOptimized {code : Code} {ip : Nat} {i : Instr}
    (found : (optimizeInstrs code)[ip]? = some i) : ∃ j, code[ip]? = some j ∧ i = j.optimize := by
  rw [optimizeAt] at found
  obtain ⟨j, at_, same⟩ := Option.map_eq_some_iff.mp found
  exact ⟨j, at_, same.symm⟩

end Quill
