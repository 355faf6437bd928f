import Quill.Proofs.Simulation.Run

/-! Runs whose calls correspond one to one. -/
namespace Quill

structure Frame.Alike (R : Routine → Routine → Prop) (P : Routine → Routine → Nat → Nat → Prop)
    (S : Option Nat → Option Nat → Prop) (f g : Frame) : Prop where
  routine : R f.routine g.routine
  returnIp : P f.routine g.routine f.returnIp g.returnIp
  scope : f.scope = g.scope
  stackBase : f.stackBase = g.stackBase
  callSite : S f.callSite g.callSite
  callee : f.callee.Alike R g.callee

/-- Calls correspond one to one, and code that correspond stands at the same places or at different
ones in both runs. -/
structure Link.Lockstep (L : Link) : Prop where
  frames : L.frames = List.Forall₂ (Frame.Alike L.routine L.position L.source)
  reuses : L.left.reusesFrames = L.right.reusesFrames
  places {r s r' s' : Routine} : L.routine r s → L.routine r' s' →
    (r.place = r'.place ↔ s.place = s'.place)

theorem callsSame {R : Routine → Routine → Prop} {P : Routine → Routine → Nat → Nat → Prop}
    {frames frames' : List Frame} (spanOf : Option Nat → Span)
    (alike : List.Forall₂ (Frame.Alike R P Eq) frames frames') :
    (frames.reverse.map fun f => "call at " ++ (spanOf f.callSite).text) =
      frames'.reverse.map fun f => "call at " ++ (spanOf f.callSite).text := by
  rw [List.map_reverse, List.map_reverse]
  congr 1
  induction alike with
  | nil => rfl
  | cons head _ ih => rw [List.map_cons, List.map_cons, head.callSite, ih]

def Link.within (setup : Setup) (R : Routine → Routine → Prop)
    (P : Routine → Routine → Nat → Nat → Prop) (start : ∀ {r s}, R r s → P r s 0 0) : Link where
  left := setup
  right := setup
  routine := R
  position := P
  frames := List.Forall₂ (Frame.Alike R P Eq)
  ready _ _ := True
  source := Eq
  report := Eq
  calls := Eq
  excused _ := False
  limits := rfl
  broken := rfl
  framesNil := .nil
  start := start
  sourceNone := rfl
  sourceOr := by
    rintro _ _ _ _ rfl rfl
    rfl
  reported := by
    rintro _ _ _ rfl
    rfl
  callsNil := rfl
  callsAppend := by
    rintro _ _ _ _ rfl rfl
    rfl
  callsOf frames := callsSame setup.spanOf frames

theorem returnsCases {l : Level} (returns : l.returnsNext) :
    ∃ next, l.routine.code[l.ip + 1]? = some next ∧ next.opcode = .ret := by
  unfold Level.returnsNext at returns
  split at returns
  · rename_i next found
    exact ⟨next, found, of_decide_eq_true returns⟩
  · cases returns

def Level.returned (l : Level) (f : Frame) (frames : List Frame) : Level :=
  { l with
    stack := l.stack.headD ⟨.none, none⟩ :: l.stack.tail.drop (l.stack.tail.length - f.stackBase)
    scope := f.scope, routine := f.routine, ip := f.returnIp, frames := frames }

namespace Machine

variable {L : Link} {m m' : Machine} {c c' : Closure}

theorem Busy.enter (scope : Nat) {frames frames' : List Frame} (busy : m.Busy L m')
    (closure : c.Alike L.routine c') (calls : L.frames frames frames')
    (depth : L.excused (.callDepth L.left.limits.maxCallDepth) ∨
      m.current.baseDepth + frames.length = m'.current.baseDepth + frames'.length) :
    Transition.Alike L (m.enter c scope frames) (m'.enter c' scope frames') :=
  .running
    { busy.toAlike with current := ⟨busy.current.stack, rfl, closure.body, calls, depth⟩ }
    (L.start closure.body)

theorem Busy.pushFrame (scope : Nat) (lockstep : L.Lockstep) (busy : m.Busy L m')
    (closure : c.Alike L.routine c') :
    Transition.Alike L (m.pushFrame L.left c scope) (m'.pushFrame L.right c' scope) := by
  refine busy.deepen (busy.enter scope closure ?_ ?_)
  · have calls := busy.current.frames
    rw [lockstep.frames] at calls ⊢
    exact .cons ⟨busy.current.routine, busy.aligned.next, busy.current.scope,
      busy.current.stack.length_eq, busy.aligned.source, closure⟩ calls
  · refine busy.current.depth.imp_right fun same => ?_
    simp only [Level.depth, List.length_cons] at same ⊢
    omega

theorem tailCallOf {l : Level} {f : Frame} {frames : List Frame} (calls : l.frames = f :: frames)
    (closure : Closure) : isTailCall l closure =
      (decide (f.callee.body.place = closure.body.place) &&
        decide (f.callee.scope = closure.scope) && l.returnsNext) := by
  simp only [isTailCall, calls]
  rfl

theorem invokeFree {setup : Setup} (scope : Nat) (free : m.current.frames = []) :
    m.invoke setup c scope = m.pushFrame setup c scope := by
  simp only [invoke, free]

theorem invokeCalled {setup : Setup} (scope : Nat) {f : Frame} {frames : List Frame}
    (called : m.current.frames = f :: frames) :
    m.invoke setup c scope =
      if setup.reusesFrames && isTailCall m.current c then
        m.enter c scope ({ f with callSite := m.current.source? } :: frames)
      else m.pushFrame setup c scope := by
  simp only [invoke, called]

theorem returnFree (free : m.current.frames = []) : m.returnFrom = m.advance m.current.stack := by
  simp only [returnFrom, free]

theorem returnCalled {f : Frame} {frames : List Frame} (called : m.current.frames = f :: frames) :
    m.returnFrom = .running { m with current := m.current.returned f frames } := by
  simp only [returnFrom, called, Level.returned]

theorem lockstepInvokes (lockstep : L.Lockstep) : L.Invokes := by
  intro m m' c c' scope busy closure _
  have calls := busy.current.frames
  rw [lockstep.frames] at calls
  have pushed := busy.pushFrame scope lockstep closure
  cases here : m.current.frames with
  | nil =>
    cases here' : m'.current.frames with
    | nil =>
      rw [invokeFree scope here, invokeFree scope here']
      exact pushed
    | cons _ _ => rw [here, here'] at calls; cases calls
  | cons f rest =>
    cases here' : m'.current.frames with
    | nil => rw [here, here'] at calls; cases calls
    | cons f' rest' =>
      rw [here, here'] at calls
      obtain ⟨head, tail⟩ := List.forall₂_cons.mp calls
      have places := lockstep.places head.callee.body closure.body
      have same : isTailCall m.current c = isTailCall m'.current c' := by
        rw [tailCallOf here, tailCallOf here', head.callee.scope, closure.scope,
          busy.aligned.returns]
        simp only [places]
      rw [invokeCalled scope here, invokeCalled scope here', ← lockstep.reuses, ← same]
      by_cases tailCall : (L.left.reusesFrames && isTailCall m.current c) = true
      · rw [if_pos tailCall, if_pos tailCall]
        refine busy.enter scope closure ?_ ?_
        · rw [lockstep.frames]
          exact .cons { head with callSite := busy.aligned.source } tail
        · refine busy.current.depth.imp_right fun same => ?_
          simpa only [Level.depth, here, here', List.length_cons] using same
      · rw [if_neg tailCall, if_neg tailCall]
        exact pushed

theorem belowAlike {stack stack' : List Cell} (height : Nat) (alike : StacksAlike L stack stack') :
    StacksAlike L (stack.headD ⟨.none, none⟩ :: stack.tail.drop (stack.tail.length - height))
      (stack'.headD ⟨.none, none⟩ :: stack'.tail.drop (stack'.tail.length - height)) := by
  cases alike with
  | nil =>
    simp only [List.tail_nil, List.drop_nil]
    exact .cons ⟨.none, L.sourceNone⟩ .nil
  | cons head tail =>
    refine .cons head ?_
    rw [List.tail_cons, List.tail_cons, tail.length_eq]
    exact List.forall₂_drop _ tail

theorem Alike.returnFrom (lockstep : L.Lockstep) (alike : m.Alike L m')
    (called : m.current.frames ≠ []) : Transition.Alike L m.returnFrom m'.returnFrom := by
  have calls := alike.current.frames
  rw [lockstep.frames] at calls
  cases here : m.current.frames with
  | nil => exact (called here).elim
  | cons f rest =>
    cases here' : m'.current.frames with
    | nil => rw [here, here'] at calls; cases calls
    | cons f' rest' =>
      rw [here, here'] at calls
      obtain ⟨head, tail⟩ := List.forall₂_cons.mp calls
      rw [returnCalled here, returnCalled here']
      refine .running { alike with current := ⟨?_, head.scope, head.routine, ?_, ?_⟩ } head.returnIp
      · simp only [Level.returned, ← head.stackBase]
        exact belowAlike _ alike.current.stack
      · rw [lockstep.frames]
        exact tail
      · refine alike.current.depth.imp_right fun same => ?_
        simp only [Level.returned, Level.depth, here, here', List.length_cons] at same ⊢
        omega

theorem Busy.returnFrom (lockstep : L.Lockstep) (busy : m.Busy L m') :
    Transition.Alike L m.returnFrom m'.returnFrom := by
  by_cases free : m.current.frames = []
  · have calls := busy.current.frames
    rw [lockstep.frames, free] at calls
    have free' : m'.current.frames = [] := List.forall₂_nil_left_iff.mp calls
    rw [returnFree free, returnFree free']
    exact busy.advance busy.current.stack
  · exact busy.toAlike.returnFrom lockstep free

theorem execReturn {setup : Setup} {i : Instr} (op : i.opcode = .ret) :
    m.exec setup i = m.returnFrom := by
  simp only [exec, op]

theorem Busy.lockstep {i i' : Instr} (lockstep : L.Lockstep) (busy : m.Busy L m')
    (found : m.current.instr? = some i) (found' : m'.current.instr? = some i')
    (unlimited : L.left.limits.maxSteps = none) (alike : i.Alike L m.current m'.current i')
    (ready : i.opcode = .call → L.ready m'.current.stack.tail m'.current.frames) :
    Transition.Alike L (m.step L.left) (m'.step L.right) := by
  by_cases returns : i.opcode = .ret
  · refine busy.stepWith found found' unlimited fun counted => ?_
    rw [execReturn returns, execReturn (alike.opcode ▸ returns)]
    exact counted.returnFrom lockstep
  · exact busy.step (lockstepInvokes lockstep) found found' unlimited alike ready returns

theorem Alike.lockstepEnd (lockstep : L.Lockstep) (alike : m.Alike L m')
    (behind : m.current.instr? = none) (behind' : m'.current.instr? = none) :
    Transition.Alike L (m.step L.left) (m'.step L.right) := by
  have calls := alike.current.frames
  rw [lockstep.frames] at calls
  by_cases free : m.current.frames = []
  · have free' : m'.current.frames = [] := by
      rw [free] at calls
      exact List.forall₂_nil_left_iff.mp calls
    rw [stepEnds behind free, stepEnds behind' free']
    exact alike.endLevel (lockstepInvokes lockstep)
  · have called' : m'.current.frames ≠ [] := fun free' => free (by
      rw [free'] at calls
      exact List.forall₂_nil_right_iff.mp calls)
    rw [stepReturns behind free, stepReturns behind' called']
    exact (alike.withStack (.cons ⟨.none, L.sourceNone⟩ alike.current.stack)).returnFrom lockstep
      free

end Machine

end Quill
