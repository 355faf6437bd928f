import Quill.Proofs.Skipping.Malformed
import Quill.Proofs.Typing.Steps

/-! What a step reports. It skips an instruction with a malformed operand, which is reported, or fails
for another fault, which is reported and ends the run, or reports nothing. What has been reported
before stays in front and does not matter to what is done. -/
namespace Quill

structure Skip where
  op : Opcode
  expected : String
  source : Option Nat
  deriving DecidableEq, Repr

def Skip.report (setup : Setup) (s : Skip) : Diagnostic :=
  (Fault.malformedOperand s.op s.expected).diagnostic (setup.spanOf s.source)

def argumentExpects? : List Operand → Option String
  | [] => none
  | x :: _ => if x.isArgument then none else some "(name, argument)"

def propertyExpects? : List Operand → Option String
  | [] => none
  | x :: _ => if x.isProperty then none else some "(key, value)"

def Pending.expects? : Pending → Option (Opcode × String)
  | .argument _ _ rest => (argumentExpects? rest).map (.call, ·)
  | .objectValue _ _ _ rest => (propertyExpects? rest).map (.pushObject, ·)
  | .default .. | .objectKey .. => none

def Instr.refuses? (l : Level) (i : Instr) : Option String :=
  if i.evaluated.isEmpty then i.expects? l else none

def Machine.skips? (setup : Setup) (m : Machine) : Option Skip :=
  if (m.leaving? setup).isSome then
    m.outer.head?.bind fun w => w.pending.expects?.map fun (op, expected) =>
      ⟨op, expected, w.level.source?⟩
  else if m.executes setup then
    m.current.instr?.bind fun i => (i.refuses? m.current).map fun expected =>
      ⟨i.opcode, expected, i.source⟩
  else none

theorem argumentsRefuse (args : List Operand) :
    (if (argumentCodes 0 args).isEmpty then
      (Operand.list args).expectsList? Operand.isArgument "(name, argument)" "an argument list"
    else none) = argumentExpects? args := by
  cases args with
  | nil => rfl
  | cons x rest =>
    cases x with
    | tuple name code => cases code <;> rfl
    | _ => rfl

theorem propertiesRefuse (entries : List Operand) :
    (if (propertyCodes 0 entries).isEmpty then
      (Operand.list entries).expectsList? Operand.isProperty "(key, value)" "a property list"
    else none) = propertyExpects? entries := by
  cases entries with
  | nil => rfl
  | cons x rest =>
    cases x with
    | tuple key value =>
      cases key with
      | code c => cases value <;> rfl
      | _ => rfl
    | _ => rfl

def Machine.noting (bag : Diagnostics) (m : Machine) : Machine :=
  { m with diagnostics := bag ++ m.diagnostics }

def Transition.noting (bag : Diagnostics) : Transition → Transition
  | .running m => .running (m.noting bag)
  | .ended m => .ended (m.noting bag)
  | .failed m e => .failed (m.noting bag) e

/-- What a machine that has reported `ds` comes to, alone and with a bag in front, if it skips an
instruction or none. -/
inductive Noted (setup : Setup) (bag ds : Diagnostics) :
    Option Skip → Transition → Transition → Prop where
  | running {n : Machine} (same : n.diagnostics = ds) :
      Noted setup bag ds none (.running n) (.running (n.noting bag))
  | ended {n : Machine} (same : n.diagnostics = ds) :
      Noted setup bag ds none (.ended n) (.ended (n.noting bag))
  | skips {n : Machine} {op : Opcode} {expected : String} (same : n.diagnostics = ds) :
      Noted setup bag ds (some ⟨op, expected, n.current.source?⟩) (n.skip setup op expected)
        ((n.noting bag).skip setup op expected)
  | fails {n : Machine} {fault : Fault} {node : Option Nat} (same : n.diagnostics = ds)
      (fatal : fault.isFatal) :
      Noted setup bag ds none (n.fail setup fault node) ((n.noting bag).fail setup fault node)

theorem soundFatal {fault : Fault} (sound : ¬ fault.Malformed) : fault.isFatal := by
  cases fault with
  | malformedOperand op expected => exact (sound trivial).elim
  | _ => rfl

namespace Machine

variable {setup : Setup} {bag : Diagnostics} {m : Machine}

theorem evaluateNoted (r : Routine) (scope : Nat) (pending : Pending) :
    Noted setup bag m.diagnostics none (m.evaluate setup r scope pending)
      ((m.noting bag).evaluate setup r scope pending) := by
  by_cases deep : setup.limits.maxCallDepth < m.current.depth + 1
  · simp only [evaluate, noting, deep, ↓reduceIte]
    exact .fails rfl rfl
  · simp only [evaluate, noting, deep, ↓reduceIte]
    exact .running rfl

theorem pushFrameNoted (c : Closure) (scope : Nat) :
    Noted setup bag m.diagnostics none (m.pushFrame setup c scope)
      ((m.noting bag).pushFrame setup c scope) := by
  by_cases deep : setup.limits.maxCallDepth < m.current.depth + 1
  · simp only [pushFrame, noting, deep, ↓reduceIte]
    exact .fails rfl rfl
  · simp only [pushFrame, noting, deep, ↓reduceIte]
    exact .running rfl

theorem invokeNoted (c : Closure) (scope : Nat) :
    Noted setup bag m.diagnostics none (m.invoke setup c scope)
      ((m.noting bag).invoke setup c scope) := by
  cases calls : m.current.frames with
  | nil =>
    rw [invokeFree scope calls, invokeFree (m := m.noting bag) scope calls]
    exact pushFrameNoted c scope
  | cons f frames =>
    rw [invokeCalled scope calls, invokeCalled (m := m.noting bag) scope calls]
    by_cases reuses : setup.reusesFrames && isTailCall m.current c
    · simp only [noting, reuses, ↓reduceIte]
      exact .running rfl
    · simp only [noting, reuses]
      exact pushFrameNoted c scope

theorem fillParamsNoted (c : Closure) (scope : Nat) (slots : List (ClosureParam × Option Value)) :
    Noted setup bag m.diagnostics none (m.fillParams setup c scope slots)
      ((m.noting bag).fillParams setup c scope slots) := by
  induction slots generalizing m with
  | nil => exact invokeNoted c scope
  | cons slot rest ih =>
    obtain ⟨p, v⟩ := slot
    cases v with
    | some v => exact ih (m := { m with scopes := m.scopes.define scope p.name v })
    | none =>
      rw [fillParams, fillParams]
      cases p.default with
      | some r => exact evaluateNoted r scope _
      | none => exact .fails rfl rfl

theorem callClosureNoted (c : Closure) (args : List Argument) :
    Noted setup bag m.diagnostics none (m.callClosure setup c args)
      ((m.noting bag).callClosure setup c args) := by
  unfold callClosure
  cases placed : argumentSlots (c.params.map (·.name)) args with
  | ok slots => exact fillParamsNoted (m := { m with scopes := (m.scopes.child c.scope).2 }) c _ _
  | error fault => exact .fails rfl (soundFatal (placeFails placed).sound)

theorem callIntrinsicNoted (i : Intrinsic) (args : List Argument) :
    Noted setup bag m.diagnostics none (m.callIntrinsic setup i args)
      ((m.noting bag).callIntrinsic setup i args) := by
  simp only [callIntrinsic, noting]
  split
  · exact .running rfl
  · rename_i refused
    exact .fails rfl (soundFatal (Intrinsic.answerFails refused).sound)

theorem callTopNoted (args : List Argument) :
    Noted setup bag m.diagnostics none (m.callTop setup args)
      ((m.noting bag).callTop setup args) := by
  cases stack : m.current.stack with
  | nil =>
    simp only [callTop, noting, stack]
    exact .fails rfl rfl
  | cons callee rest =>
    simp only [callTop, noting, stack]
    cases callee.value with
    | function c => exact callClosureNoted (m := m.withStack rest) c args
    | intrinsic i => exact callIntrinsicNoted (m := m.withStack rest) i args
    | _ => exact .fails rfl rfl

theorem nextArgumentNoted (done : List Argument) (left : List Operand) :
    Noted setup bag m.diagnostics
      ((argumentExpects? left).map fun expected => ⟨.call, expected, m.current.source?⟩)
      (m.nextArgument setup done left) ((m.noting bag).nextArgument setup done left) := by
  cases left with
  | nil => exact callTopNoted done
  | cons x rest =>
    cases x with
    | tuple name code =>
      cases code with
      | code c => exact evaluateNoted _ _ _
      | _ => exact .skips rfl
    | _ => exact .skips rfl

theorem nextPropertyNoted (index : Nat) (entries : List Entry) (left : List Operand) :
    Noted setup bag m.diagnostics
      ((propertyExpects? left).map fun expected => ⟨.pushObject, expected, m.current.source?⟩)
      (m.nextProperty setup index entries left)
      ((m.noting bag).nextProperty setup index entries left) := by
  cases left with
  | nil => exact .running rfl
  | cons x rest =>
    cases x with
    | tuple key value =>
      cases key with
      | code c =>
        cases value with
        | code d => exact evaluateNoted _ _ _
        | _ => exact .skips rfl
      | _ => exact .skips rfl
    | _ => exact .skips rfl

theorem resumeNoted (v : Value) (pending : Pending) :
    Noted setup bag m.diagnostics
      (pending.expects?.map fun (op, expected) => ⟨op, expected, m.current.source?⟩)
      (m.resume setup v pending) ((m.noting bag).resume setup v pending) := by
  cases pending with
  | argument done name rest =>
    rw [Pending.expects?, Option.map_map]
    exact nextArgumentNoted _ rest
  | default c scope name rest =>
    exact fillParamsNoted (m := { m with scopes := m.scopes.define scope name v }) c scope rest
  | objectKey index entries code rest =>
    unfold resume
    cases v.key? with
    | some key => exact evaluateNoted _ _ _
    | none => exact .fails rfl rfl
  | objectValue index entries key rest =>
    rw [Pending.expects?, Option.map_map]
    exact nextPropertyNoted _ _ rest

theorem endLevelNoted : Noted setup bag m.diagnostics
    (m.outer.head?.bind fun w => w.pending.expects?.map fun (op, expected) =>
      ⟨op, expected, w.level.source?⟩) (m.endLevel setup) ((m.noting bag).endLevel setup) := by
  cases waiting : m.outer with
  | nil =>
    have waiting' : (m.noting bag).outer = [] := waiting
    simp only [endLevel, waiting, waiting']
    exact .ended rfl
  | cons w outer =>
    simp only [endLevel, noting, waiting]
    exact resumeNoted (m := { m with current := peakBelow w.level m.current, outer := outer }) _ _

theorem returnFromNoted :
    Noted setup bag m.diagnostics none m.returnFrom (m.noting bag).returnFrom := by
  cases calls : m.current.frames with
  | nil =>
    rw [returnFree calls, returnFree (m := m.noting bag) calls]
    exact .running rfl
  | cons f frames =>
    rw [returnCalled calls, returnCalled (m := m.noting bag) calls]
    exact .running rfl

theorem popNameNoted (op : Opcode) {go go' : String → List Cell → Transition}
    (goes : ∀ name rest, Noted setup bag m.diagnostics none (go name rest) (go' name rest)) :
    Noted setup bag m.diagnostics none (m.popName setup op go)
      ((m.noting bag).popName setup op go') := by
  cases stack : m.current.stack with
  | nil =>
    simp only [popName, noting, stack]
    exact .fails rfl rfl
  | cons cell rest =>
    simp only [popName, noting, stack]
    obtain ⟨value, source⟩ := cell
    cases value with
    | str name => exact goes name rest
    | _ => exact .fails rfl rfl

theorem popAssignmentNoted (op : Opcode) {go go' : String → Value → List Cell → Transition}
    (goes : ∀ name v rest, Noted setup bag m.diagnostics none (go name v rest) (go' name v rest)) :
    Noted setup bag m.diagnostics none (m.popAssignment setup op go)
      ((m.noting bag).popAssignment setup op go') := by
  refine popNameNoted op fun name rest => ?_
  cases rest with
  | nil => exact .fails rfl rfl
  | cons cell rest => exact goes name cell.value rest

theorem execGetMemberNoted :
    Noted setup bag m.diagnostics none (m.execGetMember setup)
      ((m.noting bag).execGetMember setup) := by
  simp only [execGetMember, noting]
  split
  · split
    · exact .running rfl
    · rename_i refused
      exact .fails rfl (soundFatal (memberFails refused).sound)
  · exact .fails rfl rfl

theorem execBinaryNoted (op : Opcode) : Noted setup bag m.diagnostics none (m.execBinary setup op)
    ((m.noting bag).execBinary setup op) := by
  simp only [execBinary, noting]
  split
  · split
    · exact .running rfl
    all_goals exact .fails rfl rfl
  · exact .fails rfl rfl

theorem execUnaryNoted (op : Opcode) : Noted setup bag m.diagnostics none (m.execUnary setup op)
    ((m.noting bag).execUnary setup op) := by
  simp only [execUnary, noting]
  split
  · split
    · exact .running rfl
    · exact .fails rfl rfl
  · exact .fails rfl rfl

theorem execBranchNoted (op : Opcode) (target : Nat) (taken : Value → Bool) :
    Noted setup bag m.diagnostics none (m.execBranch setup op target taken)
      ((m.noting bag).execBranch setup op target taken) := by
  simp only [execBranch, noting]
  split
  · split
    · exact .running rfl
    · exact .running rfl
  · exact .fails rfl rfl

theorem execJumpNoted (i : Instr) : Noted setup bag m.diagnostics
    ((m.current.expectsOffset? i.operand).map fun expected =>
      ⟨i.opcode, expected, m.current.source?⟩)
    (m.execJump setup i) ((m.noting bag).execJump setup i) := by
  cases given : i.operand.offset? with
  | none =>
    simp only [execJump, noting, Level.expectsOffset?, given]
    exact .skips rfl
  | some offset =>
    cases target : jumpTarget? m.current.ip offset m.current.routine.code.length with
    | none =>
      simp only [execJump, noting, Level.expectsOffset?, given, target]
      exact .skips rfl
    | some target =>
      simp only [execJump, noting, Level.expectsOffset?, given, target]
      cases i.opcode with
      | jmp => exact .running rfl
      | jz => exact execBranchNoted _ _ _
      | _ => exact execBranchNoted _ _ _

theorem execProcNoted (x : Operand) : Noted setup bag m.diagnostics
    ((m.current.expectsFunction? x).map fun expected => ⟨.proc, expected, m.current.source?⟩)
    (m.execProc setup x) ((m.noting bag).execProc setup x) := by
  cases made : closureOf m.current 0 x with
  | error expected =>
    have refused := closureRefused made m.nextId
    simp only [execProc, noting, Level.expectsFunction?, made, refused]
    exact .skips rfl
  | ok c =>
    cases made' : closureOf m.current m.nextId x with
    | error expected =>
      cases made.symm.trans (closureRefused made' 0)
    | ok c' =>
      simp only [execProc, noting, Level.expectsFunction?, made, made']
      exact .running rfl

theorem execNoted {i : Instr} (found : m.current.instr? = some i) (stays : i.opcode ≠ .exit) :
    Noted setup bag m.diagnostics
      ((i.refuses? m.current).map fun expected => ⟨i.opcode, expected, i.source⟩)
      (m.exec setup i) ((m.noting bag).exec setup i) := by
  -- No instruction but an exit ends a level.
  have source : m.current.source? = i.source := by rw [Level.source?, found, Option.bind_some]
  rw [← source]
  unfold exec Instr.refuses? Instr.evaluated Instr.expects?
  cases op : i.opcode with
  | exit => exact (stays op).elim
  | push =>
    cases given : Value.ofOperand? i.operand with
    | some value => exact .running rfl
    | none => exact .skips rfl
  | pushObject =>
    cases i.operand with
    | list entries =>
      have next : Noted setup bag m.diagnostics _ (m.nextProperty setup 0 [] entries) _ :=
        nextPropertyNoted 0 [] entries
      rw [← propertiesRefuse] at next
      exact next
    | _ => exact .skips rfl
  | call =>
    cases i.operand with
    | list args =>
      have next : Noted setup bag m.diagnostics _ (m.nextArgument setup [] args) _ :=
        nextArgumentNoted [] args
      rw [← argumentsRefuse] at next
      exact next
    | _ => exact .skips rfl
  | jmp | jz | jnz =>
    have jumps : Noted setup bag m.diagnostics _ (m.execJump setup i) _ := execJumpNoted i
    rw [op] at jumps
    exact jumps
  | proc => exact execProcNoted i.operand
  | pop =>
    cases stack : m.current.stack with
    | nil =>
      simp only [noting, stack]
      exact .fails rfl rfl
    | cons _ rest =>
      simp only [noting, stack]
      exact .running rfl
  | load =>
    refine popNameNoted .load fun name rest => ?_
    simp only [noting]
    split
    · exact .running rfl
    · exact .fails rfl rfl
  | store => exact popAssignmentNoted .store fun _ _ _ => .running rfl
  | define => exact popAssignmentNoted .define fun _ _ _ => .running rfl
  | getMember => exact execGetMemberNoted
  | ret => exact returnFromNoted
  | pushNone | beginScope | endScope => exact .running rfl
  | neg | pos | not | bnot | inc | dec => exact execUnaryNoted _
  | _ => exact execBinaryNoted _

theorem stepNoted (setup : Setup) (bag : Diagnostics) (m : Machine) :
    Noted setup bag m.diagnostics (m.skips? setup) (m.step setup) ((m.noting bag).step setup) := by
  cases found : m.current.instr? with
  | none =>
    cases calls : m.current.frames with
    | nil =>
      rw [stepEnds found calls, stepEnds (m := m.noting bag) found calls]
      simp only [skips?, leaving?, found, calls, List.isEmpty_nil, ↓reduceIte, Option.isSome_some]
      exact endLevelNoted
    | cons f frames =>
      have called : m.current.frames ≠ [] := calls ▸ List.cons_ne_nil f frames
      rw [stepReturns found called, stepReturns (m := m.noting bag) found called]
      simp only [skips?, leaving?, executes, found, calls]
      exact returnFromNoted (m := m.withStack (⟨.none, none⟩ :: m.current.stack))
  | some i =>
    cases beyond : { m with steps := m.steps + 1 }.overLimit? setup.limits with
    | some fault =>
      rw [stepBeyond found beyond, stepBeyond (m := m.noting bag) found beyond]
      have none : m.skips? setup = none := by simp [skips?, leaving?, executes, found, beyond]
      rw [none]
      exact .fails rfl (soundFatal (limitFaults beyond))
    | none =>
      rw [stepWithin found beyond, stepWithin (m := m.noting bag) found beyond]
      by_cases exits : i.opcode = .exit
      · rw [execExit exits, execExit exits]
        simp only [skips?, leaving?, found, beyond, exits]
        exact endLevelNoted (m := { m with steps := m.steps + 1 })
      · simp only [skips?, leaving?, executes, found, beyond, exits]
        exact execNoted (m := { m with steps := m.steps + 1 }) found exits

end Machine

end Quill
