import Quill.Proofs.Simulation.Faults
import Quill.Proofs.Simulation.Frames

/-! What a step may do to the levels of a machine, as far as the limits of steps and of calls are
concerned. An instruction works on the current level, makes one call there, starts one level above
it, or fails; without an instruction a step returns from a call or ends a level. What limits keep is
proved from these cases. -/
namespace Quill

structure Tally where
  calls : Nat
  baseDepth : Nat
  peak : Nat

def Tally.depth (t : Tally) : Nat := t.baseDepth + t.calls

def Level.tally (l : Level) : Tally := ⟨l.frames.length, l.baseDepth, l.peak⟩

def Level.called (l : Level) : Nat :=
  match l.top? with
  | some (.function c) => c.params.length
  | _ => 0

def Waiting.toStart (w : Waiting) : Nat :=
  match w.pending with
  | .argument _ _ rest => rest.length + w.level.called
  | .default _ _ _ rest => rest.length
  | .objectKey _ _ _ rest => 2 * rest.length + 1
  | .objectValue _ _ _ rest => 2 * rest.length

structure Account where
  steps : Nat
  level : Tally
  outer : List Waiting

def Machine.account (m : Machine) : Account := ⟨m.steps, m.current.tally, m.outer⟩

def Fault.Limit : Fault → Prop
  | .callDepth _ | .stepLimit _ | .stackLimit _ => True
  | _ => False

inductive Course (setup : Setup) (a : Account) (bound : Nat) : Transition → Prop where
  | stays {m : Machine} {calls peak : Nat}
      (same : m.account = ⟨a.steps, ⟨calls, a.level.baseDepth, peak⟩, a.outer⟩)
      (fewer : calls ≤ a.level.calls) (low : peak ≤ max a.level.peak a.level.calls) :
      Course setup a bound (.running m)
  | calls {m : Machine}
      (same : m.account = ⟨a.steps, ⟨a.level.calls + 1, a.level.baseDepth,
        max a.level.peak (a.level.calls + 1)⟩, a.outer⟩)
      (room : a.level.depth < setup.limits.maxCallDepth) : Course setup a bound (.running m)
  | starts {m : Machine} {w : Waiting}
      (same : m.account = ⟨a.steps, ⟨0, a.level.depth + 1, 0⟩, w :: a.outer⟩)
      (waits : w.level.tally = a.level) (fewer : w.toStart < bound)
      (room : a.level.depth < setup.limits.maxCallDepth) : Course setup a bound (.running m)
  | fails {m last : Machine} {e : RunError} {fault : Fault} {node : Option Nat}
      (same : m.account = a) (failed : m.fail setup fault node = .failed last e)
      (cause : ¬ fault.Limit ∨ fault = .callDepth setup.limits.maxCallDepth ∧
        setup.limits.maxCallDepth ≤ a.level.depth) : Course setup a bound (.failed last e)

theorem Fault.OfValues.unlimited {fault : Fault} (fails : fault.OfValues) : ¬ fault.Limit := by
  cases fails <;> exact id

namespace Machine

variable {setup : Setup} {m : Machine} {bound : Nat}

theorem goesOnCourse {n : Machine} (same : n.account = m.account) :
    Course setup m.account bound (.running n) :=
  .stays same (Nat.le_refl _) (Nat.le_max_left _ _)

theorem failCourse {n : Machine} {fault : Fault} (node : Option Nat)
    (same : n.account = m.account) (other : ¬ fault.Limit) :
    Course setup m.account bound (n.fail setup fault node) :=
  .fails same rfl (.inl other)

theorem deepenCourse {t : Transition} (goes : m.current.depth < setup.limits.maxCallDepth →
      Course setup m.account bound t) :
    Course setup m.account bound
      (if setup.limits.maxCallDepth < m.current.depth + 1 then
        m.fail setup (.callDepth setup.limits.maxCallDepth) none else t) := by
  by_cases deep : setup.limits.maxCallDepth < m.current.depth + 1
  · rw [if_pos deep]
    exact .fails rfl rfl (.inr ⟨rfl, Nat.le_of_lt_succ deep⟩)
  · rw [if_neg deep]
    exact goes (by omega)

theorem evaluateCourse (r : Routine) (scope : Nat) {pending : Pending}
    (fewer : Waiting.toStart ⟨m.current, pending⟩ < bound) :
    Course setup m.account bound (m.evaluate setup r scope pending) :=
  deepenCourse fun room => .starts rfl rfl fewer room

theorem pushFrameCourse (c : Closure) (scope : Nat) :
    Course setup m.account bound (m.pushFrame setup c scope) :=
  deepenCourse fun room => .calls rfl room

theorem invokeCourse (c : Closure) (scope : Nat) :
    Course setup m.account bound (m.invoke setup c scope) := by
  cases calls : m.current.frames with
  | nil =>
    rw [invokeFree scope calls]
    exact pushFrameCourse c scope
  | cons f frames =>
    rw [invokeCalled scope calls]
    split
    · have same : m.account.level.calls = frames.length + 1 := congrArg List.length calls
      refine .stays rfl (Nat.le_of_eq same.symm) ?_
      rw [same]
      exact Nat.le_refl _
    · exact pushFrameCourse c scope

theorem fillParamsCourse (c : Closure) (scope : Nat) (slots : List (ClosureParam × Option Value))
    (fewer : slots.length ≤ bound) : Course setup m.account bound (m.fillParams setup c scope slots) := by
  induction slots generalizing m with
  | nil => exact invokeCourse c scope
  | cons slot rest ih =>
    obtain ⟨p, v⟩ := slot
    cases v with
    | some v =>
      exact ih (m := { m with scopes := m.scopes.define scope p.name v }) (Nat.le_of_succ_le fewer)
    | none =>
      rw [fillParams]
      cases p.default with
      | some r => exact evaluateCourse r scope fewer
      | none => exact failCourse none rfl id

theorem callClosureCourse (c : Closure) (args : List Argument) (fewer : c.params.length ≤ bound) :
    Course setup m.account bound (m.callClosure setup c args) := by
  unfold callClosure
  dsimp only
  split
  · refine fillParamsCourse (m := { m with scopes := (m.scopes.child c.scope).2 }) c _ _ ?_
    rw [List.length_zip]
    exact Nat.le_trans (Nat.min_le_left _ _) fewer
  · rename_i refused
    exact failCourse none rfl (placeFails refused).unlimited

theorem callIntrinsicCourse (i : Intrinsic) (args : List Argument) :
    Course setup m.account bound (m.callIntrinsic setup i args) := by
  unfold callIntrinsic
  dsimp only
  split
  · exact goesOnCourse rfl
  · rename_i fault refused
    exact failCourse none rfl (Intrinsic.answerFails refused).unlimited

theorem callTopCourse (args : List Argument) (fewer : m.current.called ≤ bound) :
    Course setup m.account bound (m.callTop setup args) := by
  unfold callTop
  split
  · exact failCourse none rfl id
  · rename_i callee rest stack
    dsimp only
    split
    · rename_i c called
      have params : m.current.called = c.params.length := by
        simp only [Level.called, Level.top?, stack, List.head?_cons, Option.map_some, called]
      exact callClosureCourse (m := m.withStack rest) c args (params ▸ fewer)
    · exact callIntrinsicCourse (m := m.withStack rest) _ args
    · exact failCourse none rfl id

theorem nextArgumentCourse (done : List Argument) (left : List Operand)
    (fewer : left.length + m.current.called ≤ bound) :
    Course setup m.account bound (m.nextArgument setup done left) := by
  unfold nextArgument
  split
  · exact callTopCourse done (by rwa [List.length_nil, Nat.zero_add] at fewer)
  · refine evaluateCourse _ _ ?_
    rw [List.length_cons] at fewer
    change _ + m.current.called < bound
    omega
  · exact goesOnCourse rfl

theorem nextPropertyCourse (index : Nat) (entries : List Entry) (left : List Operand)
    (fewer : 2 * left.length ≤ bound) :
    Course setup m.account bound (m.nextProperty setup index entries left) := by
  unfold nextProperty
  split
  · exact goesOnCourse rfl
  · refine evaluateCourse _ _ ?_
    rw [List.length_cons] at fewer
    change 2 * _ + 1 < bound
    omega
  · exact goesOnCourse rfl

theorem resumeCourse (v : Value) (pending : Pending) :
    Course setup m.account (Waiting.toStart ⟨m.current, pending⟩) (m.resume setup v pending) := by
  cases pending with
  | argument done name rest => exact nextArgumentCourse _ rest (Nat.le_refl _)
  | default c scope name rest =>
    exact fillParamsCourse (m := { m with scopes := m.scopes.define scope name v }) c scope rest
      (Nat.le_refl _)
  | objectKey index entries code rest =>
    unfold resume
    dsimp only
    split
    · exact evaluateCourse _ _ (Nat.lt_succ_self _)
    · exact failCourse none rfl id
  | objectValue index entries key rest => exact nextPropertyCourse _ _ rest (Nat.le_refl _)

theorem endLevelCourse (setup : Setup) {w : Waiting} {outer : List Waiting}
    (waiting : m.outer = w :: outer) :
    Course setup ⟨m.steps, (peakBelow w.level m.current).tally, outer⟩ w.toStart
      (m.endLevel setup) := by
  simp only [endLevel, waiting]
  exact resumeCourse (m := { m with current := peakBelow w.level m.current, outer := outer }) _
    w.pending

theorem returnFromCourse (setup : Setup) (m : Machine) (bound : Nat) :
    Course setup m.account bound m.returnFrom := by
  cases calls : m.current.frames with
  | nil =>
    rw [returnFree calls]
    exact goesOnCourse rfl
  | cons f frames =>
    rw [returnCalled calls]
    refine .stays rfl ?_ (Nat.le_max_left _ _)
    have same : m.account.level.calls = frames.length + 1 := congrArg List.length calls
    rw [same]
    exact Nat.le_succ frames.length

theorem popNameCourse (op : Opcode) {go : String → List Cell → Transition}
    (goes : ∀ name rest, Course setup m.account bound (go name rest)) :
    Course setup m.account bound (m.popName setup op go) := by
  unfold popName
  split
  · exact failCourse none rfl id
  · exact goes _ _
  · exact failCourse none rfl id

theorem popAssignmentCourse (op : Opcode) {go : String → Value → List Cell → Transition}
    (goes : ∀ name v rest, Course setup m.account bound (go name v rest)) :
    Course setup m.account bound (m.popAssignment setup op go) := by
  refine popNameCourse op fun name rest => ?_
  split
  · exact failCourse none rfl id
  · exact goes _ _ _

theorem execGetMemberCourse : Course setup m.account bound (m.execGetMember setup) := by
  unfold execGetMember
  split
  · split
    · exact goesOnCourse rfl
    · rename_i refused
      exact failCourse none rfl (memberFails refused).unlimited
  · exact failCourse none rfl id

theorem execBinaryCourse (op : Opcode) : Course setup m.account bound (m.execBinary setup op) := by
  unfold execBinary
  repeat' split
  · exact goesOnCourse rfl
  all_goals exact failCourse _ rfl id

theorem execUnaryCourse (op : Opcode) : Course setup m.account bound (m.execUnary setup op) := by
  unfold execUnary
  repeat' split
  · exact goesOnCourse rfl
  all_goals exact failCourse _ rfl id

theorem execBranchCourse (op : Opcode) (target : Nat) (taken : Value → Bool) :
    Course setup m.account bound (m.execBranch setup op target taken) := by
  unfold execBranch
  repeat' split
  · exact goesOnCourse rfl
  · exact goesOnCourse rfl
  · exact failCourse _ rfl id

theorem execJumpCourse (i : Instr) : Course setup m.account bound (m.execJump setup i) := by
  unfold execJump
  split
  · exact goesOnCourse rfl
  · split
    · exact goesOnCourse rfl
    · split
      · exact goesOnCourse rfl
      · exact execBranchCourse _ _ _
      · exact execBranchCourse _ _ _

theorem execProcCourse (x : Operand) : Course setup m.account bound (m.execProc setup x) := by
  unfold execProc
  split <;> exact goesOnCourse rfl

theorem execCourse (setup : Setup) (m : Machine) (i : Instr) (stays : i.opcode ≠ .exit) :
    ∃ bound, Course setup m.account bound (m.exec setup i) := by
  -- No instruction but an exit ends a level.
  unfold exec
  cases op : i.opcode with
  | exit => exact (stays op).elim
  | push => exact ⟨0, by dsimp only; split <;> exact goesOnCourse rfl⟩
  | pushNone => exact ⟨0, goesOnCourse rfl⟩
  | pushObject =>
    dsimp only
    split
    · exact ⟨_, nextPropertyCourse _ _ _ (Nat.le_refl _)⟩
    · exact ⟨0, goesOnCourse rfl⟩
  | pop =>
    dsimp only
    split
    · exact ⟨0, goesOnCourse rfl⟩
    · exact ⟨0, failCourse _ rfl id⟩
  | load =>
    refine ⟨0, popNameCourse .load fun name rest => ?_⟩
    split
    · exact goesOnCourse rfl
    · exact failCourse _ rfl id
  | store => exact ⟨0, popAssignmentCourse .store fun _ _ _ => goesOnCourse rfl⟩
  | define => exact ⟨0, popAssignmentCourse .define fun _ _ _ => goesOnCourse rfl⟩
  | getMember => exact ⟨0, execGetMemberCourse⟩
  | jmp => exact ⟨0, execJumpCourse i⟩
  | jz => exact ⟨0, execJumpCourse i⟩
  | jnz => exact ⟨0, execJumpCourse i⟩
  | proc => exact ⟨0, execProcCourse _⟩
  | call =>
    dsimp only
    split
    · exact ⟨_, nextArgumentCourse _ _ (Nat.le_refl _)⟩
    · exact ⟨0, goesOnCourse rfl⟩
  | ret => exact ⟨0, returnFromCourse setup m 0⟩
  | beginScope => exact ⟨0, goesOnCourse rfl⟩
  | endScope => exact ⟨0, goesOnCourse rfl⟩
  | neg => exact ⟨0, execUnaryCourse _⟩
  | pos => exact ⟨0, execUnaryCourse _⟩
  | not => exact ⟨0, execUnaryCourse _⟩
  | bnot => exact ⟨0, execUnaryCourse _⟩
  | inc => exact ⟨0, execUnaryCourse _⟩
  | dec => exact ⟨0, execUnaryCourse _⟩
  | _ => exact ⟨0, execBinaryCourse _⟩

theorem stepBeyond {i : Instr} {fault : Fault} (found : m.current.instr? = some i)
    (beyond : { m with steps := m.steps + 1 }.overLimit? setup.limits = some fault) :
    m.step setup = { m with steps := m.steps + 1 }.fail setup fault none := by
  unfold step
  simp only [found, beyond]

theorem stepWithin {i : Instr} (found : m.current.instr? = some i)
    (fits : { m with steps := m.steps + 1 }.overLimit? setup.limits = none) :
    m.step setup = { m with steps := m.steps + 1 }.exec setup i := by
  unfold step
  simp only [found, fits]

theorem execExit {i : Instr} (exits : i.opcode = .exit) : m.exec setup i = m.endLevel setup := by
  simp only [exec, exits]

def executes (setup : Setup) (m : Machine) : Bool :=
  m.current.instr?.isSome && ({ m with steps := m.steps + 1 }.overLimit? setup.limits).isNone

end Machine

inductive StepCourse (setup : Setup) (m : Machine) : Bool → Transition → Prop where
  | ends : StepCourse setup m false (m.endLevel setup)
  | returns {f : Frame} {frames : List Frame} (called : m.current.frames = f :: frames) :
      StepCourse setup m false ((m.withStack (⟨.none, none⟩ :: m.current.stack)).returnFrom)
  | refused {fault : Fault}
      (beyond : { m with steps := m.steps + 1 }.overLimit? setup.limits = some fault) :
      StepCourse setup m false ({ m with steps := m.steps + 1 }.fail setup fault none)
  | exits : StepCourse setup m true ({ m with steps := m.steps + 1 }.endLevel setup)
  | goes {bound : Nat} {t : Transition}
      (course : Course setup { m with steps := m.steps + 1 }.account bound t) :
      StepCourse setup m true t

theorem Machine.stepCourse (setup : Setup) (m : Machine) :
    StepCourse setup m (m.executes setup) (m.step setup) := by
  cases found : m.current.instr? with
  | none =>
    have idles : m.executes setup = false := by
      rw [executes, found, Option.isSome_none, Bool.false_and]
    rw [idles]
    cases calls : m.current.frames with
    | nil =>
      rw [stepEnds found calls]
      exact .ends
    | cons f frames =>
      rw [stepReturns found (calls ▸ List.cons_ne_nil f frames)]
      exact .returns calls
  | some i =>
    have counts : m.executes setup =
        ({ m with steps := m.steps + 1 }.overLimit? setup.limits).isNone := by
      rw [executes, found, Option.isSome_some, Bool.true_and]
    rw [counts]
    cases beyond : { m with steps := m.steps + 1 }.overLimit? setup.limits with
    | some fault =>
      rw [stepBeyond found beyond]
      exact .refused beyond
    | none =>
      rw [stepWithin found beyond]
      by_cases exits : i.opcode = .exit
      · rw [execExit exits]
        exact .exits
      · obtain ⟨bound, course⟩ := execCourse setup { m with steps := m.steps + 1 } i exits
        exact .goes course

end Quill
