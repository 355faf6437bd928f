import Quill.Proofs.Simulation.Control

/-! Calls and object literals of machines that correspond, up to the point where a function is
entered. -/
namespace Quill

variable {L : Link}

def Link.Invokes (L : Link) : Prop :=
  ∀ {m m' : Machine} {c c' : Closure} (scope : Nat), m.Busy L m' → c.Alike L.routine c' →
    L.ready m'.current.stack m'.current.frames →
    Transition.Alike L (m.invoke L.left c scope) (m'.invoke L.right c' scope)

namespace Machine

theorem oddArgument {setup : Setup} {m : Machine} {done : List Argument} {x : Operand}
    (rest : List Operand) (odd : ∀ name code, x ≠ .tuple name (.code code)) :
    m.nextArgument setup done (x :: rest) = m.skip setup .call "(name, argument)" := by
  unfold nextArgument
  split
  · rename_i none
    cases none
  · rename_i name code _ same
    exact (odd name code (List.cons.inj same).1).elim
  · rfl

theorem oddProperty {setup : Setup} {m : Machine} {index : Nat} {entries : List Entry} {x : Operand}
    (rest : List Operand) (odd : ∀ key value, x ≠ .tuple (.code key) (.code value)) :
    m.nextProperty setup index entries (x :: rest) = m.skip setup .pushObject "(key, value)" := by
  unfold nextProperty
  split
  · rename_i none
    cases none
  · rename_i key value _ same
    exact (odd key value (List.cons.inj same).1).elim
  · rfl

theorem Busy.withScopes {m m' : Machine} {h h' : ScopeHeap} (busy : m.Busy L m')
    (heap : h.Alike L.routine h') :
    Machine.Busy L { m with scopes := h } { m' with scopes := h' } :=
  { busy with scopes := heap }

theorem Busy.fillParams (invokes : L.Invokes) {c c' : Closure} (scope : Nat)
    {slots slots' : List (ClosureParam × Option Value)} (closure : c.Alike L.routine c')
    (alike : List.Forall₂ (SlotAlike L.routine) slots slots') {m m' : Machine} (busy : m.Busy L m')
    (ready : L.ready m'.current.stack m'.current.frames) :
    Transition.Alike L (m.fillParams L.left c scope slots)
      (m'.fillParams L.right c' scope slots') := by
  induction alike generalizing m m' with
  | nil => exact invokes scope busy closure ready
  | @cons p q _ _ head tail ih =>
    obtain ⟨param, slot⟩ := p
    obtain ⟨param', slot'⟩ := q
    obtain ⟨same, value⟩ := head
    cases value with
    | some value =>
      rw [Machine.fillParams, Machine.fillParams, same.name]
      exact ih (busy.withScopes (ScopeHeap.defineAlike scope _ value busy.scopes)) ready
    | none =>
      rw [Machine.fillParams, Machine.fillParams, same.name]
      rcases relatedCases same.default with ⟨missing, missing'⟩ | ⟨r, r', found, found', routine⟩
      · rw [missing, missing']
        exact busy.fail _
      · rw [found, found']
        exact busy.evaluate scope routine (.default scope _ ready closure tail)

theorem Busy.callClosure (invokes : L.Invokes) {m m' : Machine} {c c' : Closure}
    {args args' : List Argument} (busy : m.Busy L m') (closure : c.Alike L.routine c')
    (given : List.Forall₂ (Argument.Alike L.routine) args args')
    (ready : L.ready m'.current.stack m'.current.frames) :
    Transition.Alike L (m.callClosure L.left c args) (m'.callClosure L.right c' args') := by
  obtain ⟨scope, heap⟩ := ScopeHeap.childAlike c.scope busy.scopes
  unfold Machine.callClosure
  rw [← closure.scope, ← namesAlike closure.params]
  simp only [scope]
  rcases answerCases (argumentSlotsAlike (c.params.map (·.name)) given) with
    ⟨slots, slots', found, found', alike⟩ | ⟨fault, refused, refused'⟩
  · rw [found, found']
    exact (busy.withScopes heap).fillParams invokes _ closure (zipAlike closure.params alike) ready
  · rw [refused, refused']
    exact (busy.withScopes heap).fail fault

theorem Busy.callIntrinsic {m m' : Machine} {args args' : List Argument} (busy : m.Busy L m')
    (i : Intrinsic) (given : List.Forall₂ (Argument.Alike L.routine) args args') :
    Transition.Alike L (m.callIntrinsic L.left i args) (m'.callIntrinsic L.right i args') := by
  have result : AnswersAlike (fun r s : Intrinsic.Result => r = s ∧ r.value.Plain)
      (do
        let slots ← argumentSlots i.paramNames args
        i.call L.left.broken (← requireAll (i.paramNames.zip slots)))
      (do
        let slots ← argumentSlots i.paramNames args'
        i.call L.right.broken (← requireAll (i.paramNames.zip slots))) := by
    refine (argumentSlotsAlike i.paramNames given).bind fun slots slots' alike => ?_
    refine (requireAllAlike i.paramNames alike).bind fun values values' alike => ?_
    rw [← L.broken, ← Intrinsic.callAlike L.left.broken i alike]
    exact .same fun r called => ⟨rfl, Intrinsic.callPlain called⟩
  unfold Machine.callIntrinsic
  rcases answerCases result with ⟨r, s, found, found', same, plain⟩ | ⟨fault, refused, refused'⟩
  · simp only [found, found', ← same]
    have printed : Machine.Busy L { m with output := m.output ++ r.printed }
        { m' with output := m'.output ++ r.printed } :=
      { busy with output := congrArg (· ++ r.printed) busy.output }
    exact printed.push (.plain _ plain) busy.current.stack
  · simp only [refused, refused']
    exact busy.fail fault

theorem Busy.callTop (invokes : L.Invokes) {m m' : Machine} {args args' : List Argument}
    (busy : m.Busy L m') (given : List.Forall₂ (Argument.Alike L.routine) args args')
    (ready : L.ready m'.current.stack.tail m'.current.frames) :
    Transition.Alike L (m.callTop L.left args) (m'.callTop L.right args') := by
  have cells := busy.current.stack
  unfold Machine.callTop
  cases top : m.current.stack with
  | nil =>
    cases top' : m'.current.stack with
    | nil => exact busy.underflow .call
    | cons _ _ => rw [top, top'] at cells; cases cells
  | cons callee rest =>
    cases top' : m'.current.stack with
    | nil => rw [top, top'] at cells; cases cells
    | cons callee' rest' =>
      rw [top, top'] at cells
      rw [top'] at ready
      obtain ⟨⟨value, -⟩, below⟩ := List.forall₂_cons.mp cells
      have called := busy.withStack below
      obtain ⟨v, source⟩ := callee
      obtain ⟨v', source'⟩ := callee'
      cases value with
      | plain _ plain =>
        cases v with
        | intrinsic i => exact called.callIntrinsic i given
        | _ => first | exact plain.elim | exact called.fail _
      | object _ _ => exact called.fail _
      | function closure => exact called.callClosure invokes closure given ready

theorem Busy.nextArgument (invokes : L.Invokes) {m m' : Machine} {done done' : List Argument}
    {args args' : List Operand} (busy : m.Busy L m')
    (given : List.Forall₂ (Argument.Alike L.routine) done done')
    (left : ArgumentsAlike L m.current.inner m'.current.inner done.length args args')
    (ready : L.ready m'.current.stack.tail m'.current.frames) :
    Transition.Alike L (m.nextArgument L.left done args) (m'.nextArgument L.right done' args') := by
  cases left with
  | nil _ => exact busy.callTop invokes given ready
  | cons names codes tail =>
    rw [Machine.nextArgument, Machine.nextArgument, ← names, ← given.length_eq,
      busy.current.scope]
    exact busy.evaluate _ codes (.argument _ ready given tail)
  | malformed rest rest' odd odd' =>
    rw [oddArgument rest odd, oddArgument rest' odd']
    exact busy.skip _ _

theorem Busy.nextProperty {m m' : Machine} {index : Nat} {entries entries' : List Entry}
    {left left' : List Operand} (busy : m.Busy L m')
    (given : EntriesAlike L.routine entries entries')
    (alike : PropertiesAlike L m.current.inner m'.current.inner index left left') :
    Transition.Alike L (m.nextProperty L.left index entries left)
      (m'.nextProperty L.right index entries' left') := by
  cases alike with
  | nil _ =>
    rw [Machine.nextProperty, Machine.nextProperty, ← busy.nextId]
    have next : Machine.Busy L { m with nextId := m.nextId + 1 }
        { m' with nextId := m.nextId + 1 } :=
      { busy with nextId := rfl }
    exact next.push (.object _ given) busy.current.stack
  | cons keys values tail =>
    rw [Machine.nextProperty, Machine.nextProperty, busy.current.scope]
    exact busy.evaluate _ keys (.objectKey index given values tail)
  | malformed rest rest' odd odd' =>
    rw [oddProperty rest odd, oddProperty rest' odd']
    exact busy.skip _ _

theorem Busy.resume (invokes : L.Invokes) {m m' : Machine} {v v' : Value}
    {pending pending' : Pending} (busy : m.Busy L m') (value : v.Alike L.routine v')
    (waits : pending.Alike L m.current.inner m'.current.inner m'.current.stack m'.current.frames
      pending') :
    Transition.Alike L (m.resume L.left v pending) (m'.resume L.right v' pending') := by
  cases waits with
  | argument name ready given left =>
    refine busy.nextArgument invokes (List.rel_append given (.cons ⟨rfl, value⟩ .nil)) ?_ ready
    rw [List.length_append]
    exact left
  | default scope name ready called left =>
    exact (busy.withScopes (ScopeHeap.defineAlike scope name value busy.scopes)).fillParams invokes
      scope called left ready
  | objectKey index given code left =>
    rw [Machine.resume, Machine.resume, ← value.key?]
    cases v.key? with
    | none =>
      simp only [badKey, value.typeName]
      exact busy.fail _
    | some key =>
      simp only [busy.current.scope]
      exact busy.evaluate _ code (.objectValue index key given left)
  | objectValue index key given left =>
    exact busy.nextProperty (given.set key value) left

theorem Alike.endLevel (invokes : L.Invokes) {m m' : Machine} (alike : m.Alike L m') :
    Transition.Alike L (m.endLevel L.left) (m'.endLevel L.right) := by
  unfold Machine.endLevel
  have waiting := alike.outer
  cases outer : m.outer with
  | nil =>
    cases outer' : m'.outer with
    | nil => exact .ended alike
    | cons _ _ => rw [outer, outer'] at waiting; cases waiting
  | cons w rest =>
    cases outer' : m'.outer with
    | nil => rw [outer, outer'] at waiting; cases waiting
    | cons w' rest' =>
      rw [outer, outer'] at waiting
      obtain ⟨head, tail⟩ := List.forall₂_cons.mp waiting
      have resumed : Machine.Busy L
          { m with current := peakBelow w.level m.current, outer := rest }
          { m' with current := peakBelow w'.level m'.current, outer := rest' } :=
        { alike with
          current := Level.peakAlike _ _ head.level
          outer := tail
          aligned := Level.peakAligned _ _ head.aligned }
      exact resumed.resume invokes (Level.topAlike alike.current) head.pending

end Machine

end Quill
