import Quill.Proofs.Simulation.Calls

/-! Instructions that correspond do so for machines that correspond. -/
namespace Quill

variable {L : Link}

section
variable (L : Link)

inductive ListsAlike (P : List Operand → List Operand → Prop) : Operand → Operand → Prop where
  | list {items items' : List Operand} (alike : P items items') :
      ListsAlike P (.list items) (.list items')
  | odd {x x' : Operand} (odd : ∀ items, x ≠ .list items) (odd' : ∀ items, x' ≠ .list items) :
      ListsAlike P x x'

inductive TargetsAlike (l l' : Level) (x x' : Operand) : Prop where
  | none (odd : x.offset? = none) (odd' : x'.offset? = none) : TargetsAlike l l' x x'
  | out {offset offset' : Int32} (given : x.offset? = some offset)
      (given' : x'.offset? = some offset')
      (out : jumpTarget? l.ip offset l.routine.code.length = none)
      (out' : jumpTarget? l'.ip offset' l'.routine.code.length = none) : TargetsAlike l l' x x'
  | inside {offset offset' : Int32} {target target' : Nat} (given : x.offset? = some offset)
      (given' : x'.offset? = some offset')
      (found : jumpTarget? l.ip offset l.routine.code.length = some target)
      (found' : jumpTarget? l'.ip offset' l'.routine.code.length = some target')
      (position : L.position l.routine l'.routine target target') : TargetsAlike l l' x x'

structure Instr.Alike (l l' : Level) (i i' : Instr) : Prop where
  opcode : i.opcode = i'.opcode
  constant : i.opcode = .push → Value.ofOperand? i.operand = Value.ofOperand? i'.operand
  arguments : i.opcode = .call →
    ListsAlike (ArgumentsAlike L l.inner l'.inner 0) i.operand i'.operand
  properties : i.opcode = .pushObject →
    ListsAlike (PropertiesAlike L l.inner l'.inner 0) i.operand i'.operand
  function : i.opcode = .proc → ∀ id,
    AnswersAlike (Closure.Alike L.routine) (closureOf l id i.operand) (closureOf l' id i'.operand)
  target : i.opcode.isJump → TargetsAlike L l l' i.operand i'.operand

end

theorem Value.ofOperandPlain {x : Operand} {v : Value} (found : ofOperand? x = some v) :
    v.Plain := by
  cases x <;> cases found <;> trivial

namespace Machine

theorem stackCases {stack stack' : List Cell} (alike : StacksAlike L stack stack') :
    stack = [] ∧ stack' = [] ∨ ∃ c c' rest rest', stack = c :: rest ∧ stack' = c' :: rest' ∧
      c.Alike L c' ∧ StacksAlike L rest rest' := by
  cases alike with
  | nil => exact .inl ⟨rfl, rfl⟩
  | cons head tail => exact .inr ⟨_, _, _, _, rfl, rfl, head, tail⟩

theorem Busy.popName {m m' : Machine} {op : Opcode} {go go' : String → List Cell → Transition}
    (busy : m.Busy L m') (goes : ∀ name rest rest', StacksAlike L rest rest' →
      Transition.Alike L (go name rest) (go' name rest')) :
    Transition.Alike L (m.popName L.left op go) (m'.popName L.right op go') := by
  unfold Machine.popName
  rcases stackCases busy.current.stack with ⟨empty, empty'⟩ | ⟨c, c', rest, rest', top, top', head, tail⟩
  · rw [empty, empty']
    exact busy.underflow op
  · rw [top, top']
    obtain ⟨v, source⟩ := c
    obtain ⟨v', source'⟩ := c'
    have value : v.Alike L.routine v' := head.value
    cases value with
    | plain _ plain =>
      cases v with
      | str name => exact goes name rest rest' tail
      | _ => first | exact plain.elim | exact busy.failWith _ tail
    | object _ _ => exact busy.failWith _ tail
    | function _ => exact busy.failWith _ tail

theorem Busy.popAssignment {m m' : Machine} {op : Opcode}
    {go go' : String → Value → List Cell → Transition} (busy : m.Busy L m')
    (goes : ∀ name v v' rest rest', v.Alike L.routine v' → StacksAlike L rest rest' →
      Transition.Alike L (go name v rest) (go' name v' rest')) :
    Transition.Alike L (m.popAssignment L.left op go) (m'.popAssignment L.right op go') := by
  refine busy.popName fun name rest rest' tail => ?_
  rcases stackCases tail with ⟨empty, empty'⟩ | ⟨c, c', more, more', top, top', head, below⟩
  · rw [empty, empty']
    exact busy.underflow op
  · rw [top, top']
    exact goes name _ _ more more' head.value below

theorem Busy.execLoad {m m' : Machine} (busy : m.Busy L m') :
    Transition.Alike L (m.execLoad L.left) (m'.execLoad L.right) := by
  refine busy.popName fun name rest rest' tail => ?_
  rw [← busy.current.scope]
  rcases relatedCases (ScopeHeap.getAlike m.current.scope name busy.scopes) with
    ⟨missing, missing'⟩ | ⟨v, v', found, found', value⟩
  · rw [missing, missing']
    exact busy.failWith _ tail
  · rw [found, found']
    exact busy.push value tail

theorem Busy.execStore {m m' : Machine} (busy : m.Busy L m') :
    Transition.Alike L (m.execStore L.left) (m'.execStore L.right) := by
  refine busy.popAssignment fun name v v' rest rest' value tail => ?_
  rw [← busy.current.scope]
  exact (busy.withScopes (ScopeHeap.assignAlike _ name value busy.scopes)).push value tail

theorem Busy.execDefine {m m' : Machine} (busy : m.Busy L m') :
    Transition.Alike L (m.execDefine L.left) (m'.execDefine L.right) := by
  refine busy.popAssignment fun name v v' rest rest' value tail => ?_
  rw [← busy.current.scope]
  exact (busy.withScopes (ScopeHeap.defineAlike _ name value busy.scopes)).advance tail

theorem Busy.execGetMember {m m' : Machine} (busy : m.Busy L m') :
    Transition.Alike L (m.execGetMember L.left) (m'.execGetMember L.right) := by
  unfold Machine.execGetMember
  rcases stackCases busy.current.stack with
    ⟨empty, empty'⟩ | ⟨key, key', below, below', top, top', keys, tail⟩
  · rw [empty, empty']
    exact busy.underflow _
  rw [top, top']
  rcases stackCases tail with ⟨rfl, rfl⟩ | ⟨o, o', rest, rest', rfl, rfl, objects, tail⟩
  · exact busy.underflow _
  simp only
  rcases answerCases (objects.value.member keys.value) with
    ⟨v, v', found, found', value⟩ | ⟨fault, refused, refused'⟩
  · rw [found, found']
    exact busy.push value tail
  · rw [refused, refused']
    exact busy.failWith fault tail

theorem Busy.execBinary {m m' : Machine} (op : Opcode) (busy : m.Busy L m') :
    Transition.Alike L (m.execBinary L.left op) (m'.execBinary L.right op) := by
  unfold Machine.execBinary
  rcases stackCases busy.current.stack with
    ⟨empty, empty'⟩ | ⟨right, right', below, below', top, top', rights, tail⟩
  · rw [empty, empty']
    exact busy.underflow op
  rw [top, top']
  rcases stackCases tail with ⟨rfl, rfl⟩ | ⟨left, left', rest, rest', rfl, rfl, lefts, tail⟩
  · exact busy.underflow op
  simp only [← Value.Alike.binary op lefts.value rights.value]
  cases given : Value.binary op left.value right.value with
  | ok v => exact busy.push (.plain v (Value.binaryPlain given)) tail
  | error e =>
    cases e with
    | divisionByZero =>
      exact failAlike _ (busy.withStack tail).toAlike busy.aligned.source rights.source
    | binaryMismatch _ _ _ => exact busy.failWith _ tail
    | unaryMismatch _ _ => exact busy.failWith _ tail

theorem Busy.execUnary {m m' : Machine} (op : Opcode) (busy : m.Busy L m') :
    Transition.Alike L (m.execUnary L.left op) (m'.execUnary L.right op) := by
  unfold Machine.execUnary
  rcases stackCases busy.current.stack with
    ⟨empty, empty'⟩ | ⟨operand, operand', rest, rest', top, top', operands, tail⟩
  · rw [empty, empty']
    exact busy.underflow op
  rw [top, top']
  simp only [← Value.Alike.unary op operands.value]
  cases given : Value.unary op operand.value with
  | ok v => exact busy.push (.plain v (Value.unaryPlain given)) tail
  | error e => exact failAlike _ (busy.withStack tail).toAlike busy.aligned.source operands.source

theorem Busy.execBranch {m m' : Machine} (op : Opcode) {target target' : Nat}
    {taken : Value → Bool} (busy : m.Busy L m')
    (same : ∀ v v', v.Alike L.routine v' → taken v = taken v')
    (position : L.position m.current.routine m'.current.routine target target') :
    Transition.Alike L (m.execBranch L.left op target taken)
      (m'.execBranch L.right op target' taken) := by
  unfold Machine.execBranch
  rcases stackCases busy.current.stack with
    ⟨empty, empty'⟩ | ⟨c, c', rest, rest', top, top', conditions, tail⟩
  · rw [empty, empty']
    exact busy.underflow op
  rw [top, top']
  simp only [← same _ _ conditions.value]
  by_cases jumps : taken c.value
  · rw [if_pos jumps, if_pos jumps]
    exact busy.jump tail position
  · rw [if_neg jumps, if_neg jumps]
    exact busy.advance tail

theorem Busy.execJump {m m' : Machine} {i i' : Instr} (busy : m.Busy L m')
    (opcode : i.opcode = i'.opcode)
    (targets : TargetsAlike L m.current m'.current i.operand i'.operand) :
    Transition.Alike L (m.execJump L.left i) (m'.execJump L.right i') := by
  unfold Machine.execJump
  rw [← opcode]
  cases targets with
  | none odd odd' =>
    rw [odd, odd']
    exact busy.skip _ _
  | out given given' out out' =>
    simp only [given, given', out, out']
    exact busy.skip _ _
  | inside given given' found found' position =>
    simp only [given, given', found, found']
    split
    · exact busy.jump busy.current.stack position
    · exact busy.execBranch _ (fun v v' value => by rw [value.truthy]) position
    · exact busy.execBranch _ (fun v v' value => value.truthy) position

theorem Busy.execProc {m m' : Machine} {x x' : Operand} (busy : m.Busy L m')
    (function : ∀ id, AnswersAlike (Closure.Alike L.routine) (closureOf m.current id x)
      (closureOf m'.current id x')) :
    Transition.Alike L (m.execProc L.left x) (m'.execProc L.right x') := by
  unfold Machine.execProc
  rw [← busy.nextId]
  rcases answerCases (function m.nextId) with
    ⟨c, c', found, found', closure⟩ | ⟨expected, refused, refused'⟩
  · rw [found, found']
    have next : Machine.Busy L { m with nextId := m.nextId + 1 }
        { m' with nextId := m.nextId + 1 } :=
      { busy with nextId := rfl }
    exact next.push (.function closure) busy.current.stack
  · rw [refused, refused']
    exact busy.skip _ _

theorem Busy.withScope {m m' : Machine} (busy : m.Busy L m') (scope : Nat) :
    Machine.Busy L { m with current := { m.current with scope := scope } }
      { m' with current := { m'.current with scope := scope } } :=
  { busy with
    current := ⟨busy.current.stack, rfl, busy.current.routine, busy.current.frames,
      busy.current.depth⟩
    aligned := ⟨busy.aligned.next, busy.aligned.source, busy.aligned.returns⟩ }

theorem Busy.beginScope {m m' : Machine} (busy : m.Busy L m') :
    Transition.Alike L m.beginScope m'.beginScope := by
  obtain ⟨scope, heap⟩ := ScopeHeap.childAlike m.current.scope busy.scopes
  unfold Machine.beginScope
  rw [← busy.current.scope]
  simp only [← scope]
  exact ((busy.withScopes heap).withScope _).advance busy.current.stack

theorem Busy.endScope {m m' : Machine} (busy : m.Busy L m') :
    Transition.Alike L m.endScope m'.endScope := by
  unfold Machine.endScope
  rw [← busy.current.scope, ← ScopeHeap.enclosingAlike m.current.scope busy.scopes]
  exact (busy.withScope _).advance busy.current.stack

theorem notProperties {setup : Setup} {m : Machine} {i : Instr} (op : i.opcode = .pushObject)
    (odd : ∀ items, i.operand ≠ .list items) :
    m.exec setup i = m.skip setup .pushObject "a property list" := by
  simp only [Machine.exec, op]

theorem notArguments {setup : Setup} {m : Machine} {i : Instr} (op : i.opcode = .call)
    (odd : ∀ items, i.operand ≠ .list items) :
    m.exec setup i = m.skip setup .call "an argument list" := by
  simp only [Machine.exec, op]

theorem Busy.exec (invokes : L.Invokes) {m m' : Machine} {i i' : Instr} (busy : m.Busy L m')
    (alike : i.Alike L m.current m'.current i')
    (ready : i.opcode = .call → L.ready m'.current.stack.tail m'.current.frames)
    (stays : i.opcode ≠ .ret) :
    Transition.Alike L (m.exec L.left i) (m'.exec L.right i') := by
  obtain ⟨op, x, source⟩ := i
  obtain ⟨op', x', source'⟩ := i'
  obtain ⟨same, constant, arguments, properties, function, target⟩ := alike
  change op = op' at same
  subst same
  cases op with
  | exit => exact busy.toAlike.endLevel invokes
  | push =>
    have constants : Value.ofOperand? x = Value.ofOperand? x' := constant rfl
    simp only [Machine.exec, Instr.opcode, Instr.operand, ← constants]
    cases found : Value.ofOperand? x with
    | some v => exact busy.push (.plain v (Value.ofOperandPlain found)) busy.current.stack
    | none => exact busy.skip _ _
  | pushNone => exact busy.push .none busy.current.stack
  | pushObject =>
    cases properties rfl with
    | list alike => exact busy.nextProperty .nil alike
    | odd odd odd' =>
      rw [notProperties rfl odd, notProperties rfl odd']
      exact busy.skip _ _
  | pop =>
    simp only [Machine.exec, Instr.opcode]
    rcases stackCases busy.current.stack with
      ⟨empty, empty'⟩ | ⟨c, c', rest, rest', top, top', -, tail⟩
    · rw [empty, empty']
      exact busy.underflow _
    · rw [top, top']
      exact busy.advance tail
  | load => exact busy.execLoad
  | store => exact busy.execStore
  | define => exact busy.execDefine
  | getMember => exact busy.execGetMember
  | jmp => exact busy.execJump rfl (target rfl)
  | jz => exact busy.execJump rfl (target rfl)
  | jnz => exact busy.execJump rfl (target rfl)
  | proc => exact busy.execProc (function rfl)
  | call =>
    cases arguments rfl with
    | list alike => exact busy.nextArgument invokes .nil alike (ready rfl)
    | odd odd odd' =>
      rw [notArguments rfl odd, notArguments rfl odd']
      exact busy.skip _ _
  | ret => exact (stays rfl).elim
  | beginScope => exact busy.beginScope
  | endScope => exact busy.endScope
  | neg => exact busy.execUnary _
  | pos => exact busy.execUnary _
  | not => exact busy.execUnary _
  | bnot => exact busy.execUnary _
  | inc => exact busy.execUnary _
  | dec => exact busy.execUnary _
  | eq => exact busy.execBinary .eq
  | ne => exact busy.execBinary .ne
  | _ => exact busy.execBinary _

end Machine

end Quill
