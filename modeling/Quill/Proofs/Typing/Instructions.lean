import Quill.Proofs.Typing.Calls

/-! What each instruction does to a stack that is known: it does not fail for want of values, and
the next instruction finds what it expects. -/
namespace Quill

variable {P : Whole} {K : List Caller} {m : Machine} {main : Bool} {points : Nat → Point}
  {p q : Point} {above below : List Cell} {s : List Known} {b : Nat} {i : Instr}

def Machine.caller (m : Machine) (stack : List Cell) (tail : Option Routine) : Caller :=
  ⟨stack, m.current.scope, m.current.routine, m.current.ip, m.current.frames, m.outer, tail⟩

theorem paramsSound (l : Level) {params : List Operand} (shapes : ∀ x ∈ params, ParamShape x)
    (typed : ∀ slot c, argumentCode? params slot = some c → Typed none c) (index : Nat) :
    ∃ ps, closureParams l index params = .ok ps ∧
      List.Forall₂ (ClosureParam.Alike Nested) ps ps := by
  induction params generalizing index with
  | nil => exact ⟨[], rfl, .nil⟩
  | cons x rest ih =>
    obtain ⟨⟨name, default, rfl⟩, others⟩ := List.forall_mem_cons.mp shapes
    obtain ⟨ps, found, sound⟩ := ih others (fun slot c here => typed (slot + 1) c here) (index + 1)
    unfold closureParams
    simp only [Operand.text?, found]
    refine ⟨_, rfl, List.Forall₂.cons (ClosureParam.Alike.mk rfl ?_) sound⟩
    cases default with
    | code c => exact .some ⟨rfl, typed 0 c rfl⟩
    | _ => exact .none

theorem closureSound (l : Level) (id : Nat) {params : List Operand} {body : Code}
    (shapes : ∀ x ∈ params, ParamShape x) (bodies : Typed none body)
    (typed : ∀ slot c, argumentCode? params slot = some c → Typed none c) :
    ∃ closure, closureOf l id (.tuple (.list params) (.code body)) = .ok closure ∧
      closure.Sound := by
  obtain ⟨ps, found, sound⟩ := paramsSound l shapes typed 0
  rw [closureOf, found]
  exact ⟨_, rfl, rfl, sound, ⟨rfl, bodies⟩, rfl⟩

abbrev Instr.Inner (i : Instr) : Prop := ∀ slot c, i.slot? slot = some c → Typed none c

theorem argumentsTyped {items : List Operand} (op : i.opcode = .call)
    (list : i.operand = .list items) (shapes : ∀ x ∈ items, ArgumentShape x) (inner : i.Inner) :
    ∀ x ∈ items, ArgumentTyped x := by
  intro x inside
  obtain ⟨name, code, rfl⟩ := shapes x inside
  obtain ⟨slot, found⟩ := List.getElem?_of_mem inside
  refine ⟨name, code, rfl, inner slot code ?_⟩
  simp only [Instr.slot?, op, list, argumentCode?, found]

theorem propertiesTyped {items : List Operand} (op : i.opcode = .pushObject)
    (list : i.operand = .list items) (shapes : ∀ x ∈ items, PropertyShape x) (inner : i.Inner) :
    ∀ x ∈ items, PropertyTyped x := by
  intro x inside
  obtain ⟨key, value, rfl⟩ := shapes x inside
  obtain ⟨index, found⟩ := List.getElem?_of_mem inside
  have first : propertyCode? items (2 * index) = some key := by
    rw [propertyCode?, Nat.mul_div_cancel_left index Nat.two_pos, found, Nat.mul_mod_right]
    rfl
  have second : propertyCode? items (2 * index + 1) = some value := by
    rw [propertyCode?, show (2 * index + 1) / 2 = index by omega, found,
      show (2 * index + 1) % 2 = 1 by omega]
    rfl
  refine ⟨key, value, rfl, inner (2 * index) key ?_, inner (2 * index + 1) value ?_⟩
  · simp only [Instr.slot?, op, list, first]
  · simp only [Instr.slot?, op, list, second]

theorem Below.whole {h : ScopeHeap} {frames : List Frame} {outer : List Waiting}
    (rest : Below P h K true below frames outer) :
    K = [] ∧ frames = [] ∧ outer = [] ∧ (NeverReturns P.code → below = []) := by
  cases rest with
  | program clean => exact ⟨rfl, rfl, rfl, clean⟩

theorem Pending.Waits.peak {setup : Setup} {l : Level} {tail : Option Routine} {taken : List Cell}
    {pending : Pending} (waits : pending.Waits setup l tail taken) (other : Level) :
    pending.Waits setup (Machine.peakBelow l other) tail taken := by
  cases waits with
  | argument given left takes => exact .argument given left takes
  | default called left takes => exact .default called left takes
  | objectKey given typed left stays => exact .objectKey given typed left stays
  | objectValue given left stays => exact .objectValue given left stays

theorem Below.junk {h : ScopeHeap} {outer : List Waiting} (left : List Cell)
    (rest : Below P h K main below [] outer) (returns : main = true → ¬ NeverReturns P.code) :
    Below P h K main left [] outer := by
  generalize free : ([] : List Frame) = frames at rest
  cases rest with
  | program _ => exact .program fun never => (returns rfl never).elim
  | call _ _ _ _ _ _ _ => cases free
  | level waits rest routine ip scope frames stack cells pending =>
    exact .level waits rest routine ip scope frames stack cells pending

namespace Machine.Working

theorem cellsAbove (work : m.Working P K main points p above below) : CellsSound above := by
  have cells := work.cells
  rw [work.stack] at cells
  exact (List.forall_mem_append.mp cells).1

theorem serving (work : m.Working P K main points p above below) {kept : List Cell}
    (next : points (m.current.ip + 1) = ⟨.value :: s, p.blocks⟩) (holds : AllHold s kept)
    (tail : Option Routine) :
    m.Serving P (m.caller (kept ++ below) tail) K main points kept below s p.blocks :=
  { waits := ⟨work.stands, next, rfl, holds⟩
    rest := work.below
    routine := rfl
    ip := rfl
    scope := rfl
    frames := rfl
    outer := rfl
    scopes := work.scopes
    clean := work.clean }

theorem popsName {op : Opcode} {go : String → List Cell → Transition}
    (work : m.Working P K main points ⟨.name :: s, b⟩ above below) :
    ∃ name source kept, above = ⟨.str name, source⟩ :: kept ∧ AllHold s kept ∧ CellsSound kept ∧
      m.popName P.setup op go = go name (kept ++ below) := by
  obtain ⟨⟨v, source⟩, kept, ⟨name, rfl⟩, holds, rfl⟩ := List.forall₂_cons_left_iff.mp work.holds
  refine ⟨name, source, kept, rfl, holds, (List.forall_mem_cons.mp work.cellsAbove).2, ?_⟩
  rw [popName, work.stack]
  rfl

theorem popsAssignment {op : Opcode} {go : String → Value → List Cell → Transition} {k : Known}
    (work : m.Working P K main points ⟨.name :: k :: s, b⟩ above below) :
    ∃ name v kept, v.Sound ∧ AllHold s kept ∧ CellsSound kept ∧
      m.popAssignment P.setup op go = go name v (kept ++ below) := by
  unfold popAssignment
  obtain ⟨name, source, first, -, both, cells, same⟩ := work.popsName
  obtain ⟨cell, kept, -, holds, rfl⟩ := List.forall₂_cons_left_iff.mp both
  obtain ⟨sound, cells⟩ := List.forall_mem_cons.mp cells
  exact ⟨name, cell.value, kept, sound, holds, cells, same⟩

theorem execLoad (work : m.Working P K main points ⟨.name :: s, b⟩ above below)
    (next : points (m.current.ip + 1) = ⟨.value :: s, b⟩) : (m.execLoad P.setup).Fits P K := by
  unfold Machine.execLoad
  obtain ⟨name, source, kept, -, holds, cells, same⟩ := work.popsName
  rw [same]
  cases found : m.scopes.get? m.current.scope name with
  | some v =>
    have sound := soundOption (ScopeHeap.getAlike m.current.scope name work.scopes) found
    exact work.pushes next holds cells trivial sound
  | none => exact work.fails P.setup none id _

theorem execStore {k : Known} (work : m.Working P K main points ⟨.name :: k :: s, b⟩ above below)
    (next : points (m.current.ip + 1) = ⟨.value :: s, b⟩) : (m.execStore P.setup).Fits P K := by
  unfold Machine.execStore
  obtain ⟨name, v, kept, sound, holds, cells, same⟩ := work.popsAssignment
  rw [same]
  have assigned := work.withScopes (m.scopes.growsAssign m.current.scope name v)
    (ScopeHeap.assignAlike m.current.scope name sound work.scopes)
  exact assigned.pushes next holds cells trivial sound

theorem execDefine {k : Known} (work : m.Working P K main points ⟨.name :: k :: s, b⟩ above below)
    (next : points (m.current.ip + 1) = ⟨s, b⟩) : (m.execDefine P.setup).Fits P K := by
  unfold Machine.execDefine
  obtain ⟨name, v, kept, sound, holds, cells, same⟩ := work.popsAssignment
  rw [same]
  have defined := work.withScopes (m.scopes.growsDefine m.current.scope name v)
    (ScopeHeap.defineAlike m.current.scope name sound work.scopes)
  exact defined.goes next rfl holds cells

theorem execGetMember {k l : Known} (work : m.Working P K main points ⟨k :: l :: s, b⟩ above below)
    (next : points (m.current.ip + 1) = ⟨.value :: s, b⟩) :
    (m.execGetMember P.setup).Fits P K := by
  obtain ⟨key, rest, -, both, rfl⟩ := List.forall₂_cons_left_iff.mp work.holds
  obtain ⟨object, kept, -, holds, rfl⟩ := List.forall₂_cons_left_iff.mp both
  obtain ⟨keys, cells⟩ := List.forall_mem_cons.mp work.cellsAbove
  obtain ⟨objects, cells⟩ := List.forall_mem_cons.mp cells
  have stack : m.current.stack = key :: object :: (kept ++ below) := work.stack
  simp only [Machine.execGetMember, stack]
  cases member : memberOf object.value key.value with
  | ok v => exact work.pushes next holds cells trivial (soundAnswer (objects.member keys) member)
  | error fault => exact work.fails P.setup none (memberFails member).sound _

theorem execBinary {k l : Known} (op : Opcode)
    (work : m.Working P K main points ⟨k :: l :: s, b⟩ above below)
    (next : points (m.current.ip + 1) = ⟨.value :: s, b⟩) :
    (m.execBinary P.setup op).Fits P K := by
  obtain ⟨right, rest, -, both, rfl⟩ := List.forall₂_cons_left_iff.mp work.holds
  obtain ⟨left, kept, -, holds, rfl⟩ := List.forall₂_cons_left_iff.mp both
  obtain ⟨-, cells⟩ := List.forall_mem_cons.mp work.cellsAbove
  obtain ⟨-, cells⟩ := List.forall_mem_cons.mp cells
  have stack : m.current.stack = right :: left :: (kept ++ below) := work.stack
  simp only [Machine.execBinary, stack]
  cases result : Value.binary op left.value right.value with
  | ok v => exact work.pushes next holds cells trivial (.plain v (Value.binaryPlain result))
  | error e =>
    cases e with
    | divisionByZero => exact work.fails P.setup right.source id _
    | _ => exact work.fails P.setup none (ApplyError.mismatch _) _

theorem execUnary {k : Known} (op : Opcode)
    (work : m.Working P K main points ⟨k :: s, b⟩ above below)
    (next : points (m.current.ip + 1) = ⟨.value :: s, b⟩) : (m.execUnary P.setup op).Fits P K := by
  obtain ⟨operand, kept, -, holds, rfl⟩ := List.forall₂_cons_left_iff.mp work.holds
  obtain ⟨-, cells⟩ := List.forall_mem_cons.mp work.cellsAbove
  have stack : m.current.stack = operand :: (kept ++ below) := work.stack
  simp only [Machine.execUnary, stack]
  cases result : Value.unary op operand.value with
  | ok v => exact work.pushes next holds cells trivial (.plain v (Value.unaryPlain result))
  | error e => exact work.fails P.setup operand.source (ApplyError.mismatch e) _

theorem execProc {params : List Operand} {body : Code}
    (work : m.Working P K main points ⟨s, b⟩ above below)
    (next : points (m.current.ip + 1) = ⟨.value :: s, b⟩) (shapes : ∀ x ∈ params, ParamShape x)
    (bodies : Typed none body)
    (typed : ∀ slot c, argumentCode? params slot = some c → Typed none c) :
    (m.execProc P.setup (.tuple (.list params) (.code body))).Fits P K := by
  unfold Machine.execProc
  obtain ⟨closure, found, sound⟩ := closureSound m.current m.nextId shapes bodies typed
  rw [found]
  have counted : Machine.Working P { m with nextId := m.nextId + 1 } K main points ⟨s, b⟩ above
      below := { work with }
  simp only [work.stack]
  exact counted.pushes next work.holds work.cellsAbove trivial (.function sound)

theorem beginScope (work : m.Working P K main points ⟨s, b⟩ above below)
    (next : points (m.current.ip + 1) = ⟨s, b + 1⟩) : m.beginScope.Fits P K := by
  have grows := m.scopes.growsChild m.current.scope
  have inside := work.withScopes grows (ScopeHeap.childAlike m.current.scope work.scopes).2
  refine .running ⟨main, points, ⟨s, b + 1⟩, above, below, ?_⟩ (.stays K)
  exact
    { inside with
      stands := ⟨work.stands.typing, work.stands.whole, fun same =>
        ⟨_, m.scopes.childEnclosed m.current.scope, (work.stands.within same).grow grows⟩⟩
      here := next }

theorem endScope (work : m.Working P K main points ⟨s, b + 1⟩ above below)
    (next : points (m.current.ip + 1) = ⟨s, b⟩) : m.endScope.Fits P K := by
  refine .running ⟨main, points, ⟨s, b⟩, above, below, ?_⟩ (.stays K)
  exact
    { work with
      stands := ⟨work.stands.typing, work.stands.whole, fun same => by
        obtain ⟨outer, found, within⟩ := work.stands.within same
        change m.scopes.Within ((m.scopes.enclosing? m.current.scope).getD m.current.scope) b
        rw [found]
        exact within⟩
      here := next }

theorem endLevel (work : m.Working P K main points p above below) (free : m.current.frames = [])
    (stops : main = true → p = P.final) : (m.endLevel P.setup).Fits P K := by
  have rest := work.below
  have values := work.cells
  rw [free] at rest
  unfold Machine.endLevel
  generalize waiting : m.outer = outer at rest
  generalize calls : ([] : List Frame) = frames at rest
  cases rest with
  | program clean =>
    refine .ended ⟨waiting, free, ?_, fun never => ?_, work.clean⟩
    · rw [← stops rfl]
      exact work.stands.within rfl
    · rw [← stops rfl, work.stack, clean never, List.append_nil, work.holds.length_eq]
  | call _ _ _ _ _ _ _ => cases calls
  | @level a K w _ _ _ _ _ _ _ _ waits rest routine ip scope frames stack cells pending =>
    have serving : Machine.Serving P
        { m with current := peakBelow w.level m.current, outer := a.outer } a K _ _ _ _ _ _ :=
      { waits := waits
        rest := rest
        routine := routine
        ip := ip
        scope := scope
        frames := frames
        outer := rfl
        scopes := work.scopes
        clean := work.clean }
    have sound : (m.current.top?.getD .none).Sound := by
      unfold Level.top?
      cases top : m.current.stack with
      | nil => exact .none
      | cons c stack =>
        rw [top] at values
        exact (List.forall_mem_cons.mp values).1
    exact (serving.resume sound stack cells (pending.peak m.current)).offered (.inr rfl)

theorem returns {c : Cell} {f : Frame} {frames : List Frame}
    (work : m.Working P K main points p above below) (calls : m.current.frames = f :: frames)
    (left : List Cell) (sound : c.value.Sound) :
    ((m.withStack (c :: (left ++ below))).returnFrom).Fits P K := by
  have rest := work.below
  have cells := work.cellsBelow
  rw [calls] at rest
  obtain ⟨a, K', main', points', above', below', s', b', rfl, -, rfl, same, same', waits, rest,
    routine, returnIp, scope, height, stays⟩ := rest.called
  rw [returnCalled (m := m.withStack (c :: (left ++ a.stack))) calls]
  have stack : (m.withStack (c :: (left ++ a.stack))).current.returned f frames =
      { m.current with
        stack := c :: a.stack, scope := a.scope, routine := a.routine, ip := a.ip + 1
        frames := a.frames } := by
    simp only [Level.returned, withStack, List.headD_cons, List.tail_cons, List.length_append,
      height, Nat.add_sub_cancel, List.drop_left, routine, returnIp, scope, same]
  rw [stack]
  refine .running ⟨main', points', ⟨.value :: s', b'⟩, c :: above', below', ?_⟩
    (.ends a K' (.back stays ⟨⟨c, rfl⟩, rfl, rfl, rfl, rfl, same'⟩))
  exact
    { stands := waits.stands
      here := waits.next
      stack := congrArg _ waits.stack
      holds := .cons trivial waits.holds
      below := by
        change Below P m.scopes K' main' below' a.frames m.outer
        rw [same']
        exact rest
      cells := List.forall_mem_cons.mpr ⟨sound, cells⟩
      scopes := work.scopes
      clean := work.clean }

theorem returnFrom {k : Known} (work : m.Working P K main points ⟨[k], b⟩ above below)
    (next : points (m.current.ip + 1) = ⟨[], b⟩) (code : main = true → ¬ NeverReturns P.code) :
    m.returnFrom.Fits P K := by
  -- A return with nothing to return from leaves its value.
  obtain ⟨c, kept, -, holds, rfl⟩ := List.forall₂_cons_left_iff.mp work.holds
  cases holds
  have stack : m.current.stack = c :: below := work.stack
  have values := work.cells
  cases calls : m.current.frames with
  | nil =>
    rw [returnFree calls]
    refine .running ⟨main, points, ⟨[], b⟩, [], c :: below, ?_⟩ (.stays K)
    have rest := work.below
    rw [calls] at rest
    exact
      { work with
        here := next
        stack := stack
        holds := .nil
        below := by
          change Below P m.scopes K main (c :: below) m.current.frames m.outer
          rw [calls]
          exact rest.junk _ code }
  | cons f frames =>
    rw [stack] at values
    have same : m.withStack (c :: ([] ++ below)) = m := by
      rw [List.nil_append, ← stack]
      rfl
    have served := work.returns calls [] (List.forall_mem_cons.mp values).1
    rwa [same] at served

end Machine.Working

end Quill
