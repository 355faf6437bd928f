import Quill.Proofs.Folding.Blocks
import Quill.Proofs.Typing.Instructions

/-! Steps of machines whose code has a known stack. -/
namespace Quill

variable {P : Whole} {K : List Caller} {m : Machine} {main : Bool} {points : Nat → Point}
  {p q : Point} {above below : List Cell} {s : List Known} {b : Nat} {i : Instr}

namespace Machine

theorem limitFaults {limits : Limits} {fault : Fault} (beyond : m.overLimit? limits = some fault) :
    ¬ fault.Malformed := by
  unfold overLimit? overLimit?.overStack at beyond
  repeat' split at beyond
  all_goals cases beyond
  all_goals exact id

theorem stepCases (setup : Setup) (found : m.current.instr? = some i) :
    m.step setup = { m with steps := m.steps + 1 }.exec setup i ∨ ∃ fault : Fault,
      ¬ fault.Malformed ∧ m.step setup = { m with steps := m.steps + 1 }.fail setup fault none := by
  unfold step
  simp only [found]
  split
  · rename_i fault beyond
    exact .inr ⟨fault, limitFaults beyond, rfl⟩
  · exact .inl rfl

namespace Working

theorem call {items : List Operand} {k : Known}
    (work : m.Working P K main points ⟨k :: s, b⟩ above below)
    (next : points (m.current.ip + 1) = ⟨.value :: s, b⟩) (typed : ∀ x ∈ items, ArgumentTyped x) :
    ∃ callee kept, m.current.stack = callee :: (kept ++ below) ∧
      (m.nextArgument P.setup [] items).Serves P
        (m.caller (kept ++ below) (m.current.takesFor P.setup callee.value)) K := by
  obtain ⟨callee, kept, -, holds, rfl⟩ := List.forall₂_cons_left_iff.mp work.holds
  have stack : m.current.stack = callee :: (kept ++ below) := work.stack
  have serving := work.serving next holds (m.current.takesFor P.setup callee.value)
  exact ⟨callee, kept, stack, serving.nextArgument .nil typed stack work.cells rfl⟩

theorem execStraight (work : m.Working P K main points p above below)
    (next : points (m.current.ip + 1) = q) (effect : i.Effect p q) (inner : i.Inner)
    (code : i.opcode = .ret → main = true → ¬ NeverReturns P.code) :
    (m.exec P.setup i).Fits P K := by
  cases effect with
  | push op constant holds =>
    rw [execPush op constant, work.stack]
    exact work.pushes next work.holds work.cellsAbove holds
      (.plain _ (Value.ofOperandPlain constant))
  | pushNone op =>
    simp only [Machine.exec, op, work.stack]
    exact work.pushes next work.holds work.cellsAbove trivial .none
  | pushObject op list shapes =>
    simp only [Machine.exec, op, list]
    exact ((work.serving next work.holds none).nextProperty .nil
      (propertiesTyped op list shapes inner) work.stack work.cells rfl).offered (.inl rfl)
  | pop op =>
    obtain ⟨c, kept, -, holds, rfl⟩ := List.forall₂_cons_left_iff.mp work.holds
    have stack : m.current.stack = c :: (kept ++ below) := work.stack
    simp only [Machine.exec, op, stack]
    exact work.goes next rfl holds (List.forall_mem_cons.mp work.cellsAbove).2
  | load op =>
    simp only [Machine.exec, op]
    exact work.execLoad next
  | store op =>
    simp only [Machine.exec, op]
    exact work.execStore next
  | define op =>
    simp only [Machine.exec, op]
    exact work.execDefine next
  | getMember op =>
    simp only [Machine.exec, op]
    exact work.execGetMember next
  | binary op =>
    rw [execOfBinary op]
    exact work.execBinary i.opcode next
  | unary op =>
    rw [execOfUnary op]
    exact work.execUnary i.opcode next
  | proc op function shapes =>
    simp only [Machine.exec, op, function]
    refine work.execProc next shapes (inner 0 _ ?_) fun slot c found => inner (slot + 1) c ?_
    · simp only [Instr.slot?, op, function]
    · simp only [Instr.slot?, op, function, found]
  | call op list shapes =>
    simp only [Machine.exec, op, list]
    obtain ⟨callee, rest, -, serves⟩ := work.call next (argumentsTyped op list shapes inner)
    exact serves.offered (.inl rfl)
  | ret op =>
    rw [execReturn op]
    exact work.returnFrom next (code op)
  | beginScope op =>
    simp only [Machine.exec, op]
    exact work.beginScope next
  | endScope op =>
    simp only [Machine.exec, op]
    exact work.endScope next

theorem execJump {offset : Int32} {target : Nat}
    (work : m.Working P K main points p above below) (jumps : i.Jumps p (points target))
    (given : i.operand.offset? = some offset)
    (found : jumpTarget? m.current.ip offset m.current.routine.code.length = some target)
    (next : i.opcode ≠ .jmp → points (m.current.ip + 1) = points target) :
    (m.exec P.setup i).Fits P K := by
  generalize there : points target = q at jumps next
  cases jumps with
  | always op =>
    rw [execAlways given found op, work.stack]
    exact work.jumps there rfl work.holds work.cellsAbove
  | branch op =>
    obtain ⟨c, kept, -, holds, rfl⟩ := List.forall₂_cons_left_iff.mp work.holds
    have stack : m.current.stack = c :: (kept ++ below) := work.stack
    have cells := (List.forall_mem_cons.mp work.cellsAbove).2
    rcases execConditional given found op stack with same | same
    · rw [same]
      exact work.jumps there rfl holds cells
    · rw [same]
      exact work.goes (next (notAlways op)) rfl holds cells

theorem exec (work : m.Working P K main points p above below)
    (found : m.current.instr? = some i) : (m.exec P.setup i).Fits P K := by
  have inside := List.mem_of_getElem? found
  have fits := work.stands.typing.fits _ _ found
  cases fits with
  | straight effect =>
    rw [work.here] at effect
    refine work.execStraight rfl effect (work.stands.typing.inner i inside) fun op same never => ?_
    rw [work.stands.whole same] at inside
    exact never i inside op
  | jump target jumps given reached next =>
    rw [work.here] at jumps
    exact work.execJump jumps given reached next
  | exit op ends =>
    simp only [Machine.exec, op]
    rw [work.here] at ends
    unfold Whole.ending at ends
    split at ends
    · rename_i whole
      cases ends
      have rest := work.below
      rw [whole] at rest
      exact work.endLevel rest.whole.2.1 fun _ => rfl
    · cases ends

theorem counted (work : m.Working P K main points p above below) :
    Machine.Working P { m with steps := m.steps + 1 } K main points p above below := { work with }

theorem step (work : m.Working P K main points p above below) : (m.step P.setup).Fits P K := by
  cases found : m.current.instr? with
  | some i =>
    rcases stepCases P.setup found with same | ⟨fault, well, same⟩
    · rw [same]
      exact work.counted.exec found
    · rw [same]
      exact work.counted.fails P.setup none well m.current.stack
  | none =>
    by_cases free : m.current.frames = []
    · rw [stepEnds found free]
      refine work.endLevel free fun whole => ?_
      have stop := work.stands.typing.stop P.final (by rw [Whole.ending, whole]; rfl) m.current.ip
        (List.getElem?_eq_none_iff.mp found)
      rw [← work.here, stop]
    · rw [stepReturns found free]
      cases calls : m.current.frames with
      | nil => exact (free calls).elim
      | cons f frames =>
        rw [work.stack]
        exact work.returns calls above .none

theorem stepCall (work : m.Working P K main points p above below)
    (found : m.current.instr? = some i) (op : i.opcode = .call) :
    ∃ callee kept, m.current.stack = callee :: (kept ++ below) ∧ (m.step P.setup).Serves P
      (m.caller (kept ++ below) (m.current.takesFor P.setup callee.value)) K := by
  have effect := (work.stands.typing.fits _ _ found).effect (by rw [op]; rfl) (by rw [op]; nofun)
  have inner := work.stands.typing.inner i (List.mem_of_getElem? found)
  obtain ⟨items, k, s, b, list, shapes, here, next⟩ := effect.ofCall op
  rw [work.here] at here
  subst here
  have typed := argumentsTyped op list shapes inner
  rcases stepCases P.setup found with same | ⟨fault, well, same⟩
  · obtain ⟨callee, kept, stack, serves⟩ := work.counted.call next typed
    refine ⟨callee, kept, stack, ?_⟩
    rw [same]
    simp only [Machine.exec, op, list]
    exact serves
  · obtain ⟨callee, kept, -, -, rfl⟩ := List.forall₂_cons_left_iff.mp work.holds
    refine ⟨callee, kept, work.stack, ?_⟩
    obtain ⟨last, e, failed, well⟩ := failsWell P.setup none work.counted.clean well
    rw [same, failed]
    exact .failed well

end Working

end Machine

end Quill
