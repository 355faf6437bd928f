import Quill.Proofs.Simulation.Link

/-! What machines that correspond do to their stacks, when they fail, and when they start further
levels. -/
namespace Quill

variable {L : Link}

namespace Level

theorem peakAlike {l l' : Level} (above above' : Level) (alike : l.Alike L l') :
    (Machine.peakBelow l above).Alike L (Machine.peakBelow l' above') :=
  ⟨alike.stack, alike.scope, alike.routine, alike.frames, alike.depth⟩

theorem peakAligned {l l' : Level} (above above' : Level) (aligned : l.Aligned L l') :
    (Machine.peakBelow l above).Aligned L (Machine.peakBelow l' above') :=
  ⟨aligned.next, aligned.source, aligned.returns⟩

theorem withStack {l l' : Level} {stack stack' : List Cell} (alike : l.Alike L l')
    (cells : StacksAlike L stack stack') :
    Level.Alike L { l with stack := stack } { l' with stack := stack' } :=
  ⟨cells, alike.scope, alike.routine, alike.frames, alike.depth⟩

theorem topAlike {l l' : Level} (alike : l.Alike L l') :
    (l.top?.getD .none).Alike L.routine (l'.top?.getD .none) := by
  unfold top?
  rcases l with ⟨stack⟩
  rcases l' with ⟨stack'⟩
  cases alike.stack with
  | nil => exact .none
  | cons head _ => exact head.value

end Level

namespace Machine

theorem outermostAlike {outer outer' : List Waiting} {l l' : Level} (alike : l.Alike L l')
    (waiting : List.Forall₂ (Waiting.Alike L) outer outer') :
    (outermost l outer).Alike L (outermost l' outer') := by
  induction waiting generalizing l l' with
  | nil => exact alike
  | cons head _ ih => exact ih (Level.peakAlike l l' head.level)

theorem blameAlike {outer outer' : List Waiting}
    (waiting : List.Forall₂ (Waiting.Alike L) outer outer') :
    L.source ((outer.map Waiting.level).findSome? Level.source?)
      ((outer'.map Waiting.level).findSome? Level.source?) := by
  induction waiting with
  | nil => exact L.sourceNone
  | cons head _ ih =>
    have both := L.sourceOr head.aligned.source ih
    simp only [List.map_cons, List.findSome?_cons]
    cases source : Level.source? _ <;> cases source' : Level.source? _ <;>
      simp only [source, source', Option.or] at both <;> exact both

theorem callsAlike {outer outer' : List Waiting}
    (waiting : List.Forall₂ (Waiting.Alike L) outer outer') :
    L.calls ((outer.map Waiting.level).reverse.flatMap (Level.calls L.left.spanOf))
      ((outer'.map Waiting.level).reverse.flatMap (Level.calls L.right.spanOf)) := by
  induction waiting with
  | nil => exact L.callsNil
  | cons head _ ih =>
    simp only [List.map_cons, List.reverse_cons, List.flatMap_append, List.flatMap_singleton]
    exact L.callsAppend ih (L.callsOf head.level.frames)

theorem Alike.withStack {m m' : Machine} {stack stack' : List Cell} (alike : m.Alike L m')
    (cells : StacksAlike L stack stack') : (m.withStack stack).Alike L (m'.withStack stack') :=
  { alike with current := Level.withStack alike.current cells }

theorem Busy.withStack {m m' : Machine} {stack stack' : List Cell} (busy : m.Busy L m')
    (cells : StacksAlike L stack stack') : (m.withStack stack).Busy L (m'.withStack stack') :=
  { busy.toAlike.withStack cells with
    aligned := ⟨busy.aligned.next, busy.aligned.source, busy.aligned.returns⟩ }

theorem Alike.report {m m' : Machine} {d d' : Diagnostic} (alike : m.Alike L m')
    (reports : L.report d d') : Machine.Alike L { m with diagnostics := m.diagnostics ++ [d] }
      { m' with diagnostics := m'.diagnostics ++ [d'] } :=
  { alike with diagnostics := List.rel_append alike.diagnostics (.cons reports .nil) }

theorem failAlike {m m' : Machine} {node node' : Option Nat} (fault : Fault) (alike : m.Alike L m')
    (source : L.source m.current.source? m'.current.source?) (nodes : L.source node node') :
    Transition.Alike L (m.fail L.left fault node) (m'.fail L.right fault node') := by
  have blamed : L.source
      (node.or ((m.current :: m.outer.map Waiting.level).findSome? Level.source?))
      (node'.or ((m'.current :: m'.outer.map Waiting.level).findSome? Level.source?)) := by
    refine L.sourceOr nodes ?_
    have both := L.sourceOr source (blameAlike alike.outer)
    simp only [List.findSome?_cons]
    cases here : m.current.source? <;> cases here' : m'.current.source? <;>
      simp only [here, here', Option.or] at both <;> exact both
  have calls : L.calls
      ((m.current :: m.outer.map Waiting.level).reverse.flatMap (Level.calls L.left.spanOf))
      ((m'.current :: m'.outer.map Waiting.level).reverse.flatMap (Level.calls L.right.spanOf)) := by
    simp only [List.reverse_cons, List.flatMap_append, List.flatMap_singleton]
    exact L.callsAppend (callsAlike alike.outer) (L.callsOf alike.current.frames)
  refine .failed fault ?_ calls blamed
  exact
    { alike.report (L.reported fault blamed) with
      current := outermostAlike alike.current alike.outer
      outer := .nil }

theorem Busy.fail {m m' : Machine} (fault : Fault) (busy : m.Busy L m') :
    Transition.Alike L (m.fail L.left fault none) (m'.fail L.right fault none) :=
  failAlike fault busy.toAlike busy.aligned.source L.sourceNone

theorem Busy.failWith {m m' : Machine} {stack stack' : List Cell} (fault : Fault)
    (busy : m.Busy L m') (cells : StacksAlike L stack stack') :
    Transition.Alike L ((m.withStack stack).fail L.left fault none)
      ((m'.withStack stack').fail L.right fault none) :=
  (busy.withStack cells).fail fault

theorem Busy.underflow {m m' : Machine} (op : Opcode) (busy : m.Busy L m') :
    Transition.Alike L (m.underflow L.left op) (m'.underflow L.right op) :=
  busy.failWith (.stackUnderflow op 1) .nil

theorem Busy.advance {m m' : Machine} {stack stack' : List Cell} (busy : m.Busy L m')
    (cells : StacksAlike L stack stack') :
    Transition.Alike L (m.advance stack) (m'.advance stack') :=
  .running
    { busy.toAlike with
      current := ⟨cells, busy.current.scope, busy.current.routine, busy.current.frames,
        busy.current.depth⟩ }
    busy.aligned.next

theorem Busy.jump {m m' : Machine} {stack stack' : List Cell} {target target' : Nat}
    (busy : m.Busy L m') (cells : StacksAlike L stack stack')
    (position : L.position m.current.routine m'.current.routine target target') :
    Transition.Alike L (m.jump target stack) (m'.jump target' stack') :=
  .running
    { busy.toAlike with
      current := ⟨cells, busy.current.scope, busy.current.routine, busy.current.frames,
        busy.current.depth⟩ }
    position

theorem Busy.push {m m' : Machine} {stack stack' : List Cell} {v v' : Value} (busy : m.Busy L m')
    (value : v.Alike L.routine v') (cells : StacksAlike L stack stack') :
    Transition.Alike L (m.push v stack) (m'.push v' stack') :=
  busy.advance (.cons ⟨value, busy.aligned.source⟩ cells)

theorem Busy.skip {m m' : Machine} (op : Opcode) (expected : String) (busy : m.Busy L m') :
    Transition.Alike L (m.skip L.left op expected) (m'.skip L.right op expected) :=
  Busy.advance
    ⟨busy.toAlike.report (L.reported (.malformedOperand op expected) busy.aligned.source),
      busy.aligned⟩
    busy.current.stack

theorem Busy.deepen {m m' : Machine} {t t' : Transition} (busy : m.Busy L m')
    (goes : Transition.Alike L t t') :
    Transition.Alike L
      (if L.left.limits.maxCallDepth < m.current.depth + 1 then
        m.fail L.left (.callDepth L.left.limits.maxCallDepth) none else t)
      (if L.right.limits.maxCallDepth < m'.current.depth + 1 then
        m'.fail L.right (.callDepth L.right.limits.maxCallDepth) none else t') := by
  rw [← L.limits]
  rcases busy.current.depth with excused | same
  · by_cases beyond : L.left.limits.maxCallDepth < m.current.depth + 1
    · rw [if_pos beyond]
      exact .leftExcused _ excused
    by_cases beyond' : L.left.limits.maxCallDepth < m'.current.depth + 1
    · rw [if_pos beyond']
      exact .rightExcused _ excused
    rw [if_neg beyond, if_neg beyond']
    exact goes
  · rw [← same]
    by_cases beyond : L.left.limits.maxCallDepth < m.current.depth + 1
    · rw [if_pos beyond, if_pos beyond]
      exact busy.fail _
    · rw [if_neg beyond, if_neg beyond]
      exact goes

theorem Busy.evaluate {m m' : Machine} {r r' : Routine} {pending pending' : Pending} (scope : Nat)
    (busy : m.Busy L m') (routine : L.routine r r')
    (waits : pending.Alike L m.current.inner m'.current.inner m'.current.stack m'.current.frames
      pending') :
    Transition.Alike L (m.evaluate L.left r scope pending)
      (m'.evaluate L.right r' scope pending') := by
  have started : Level.Alike L (.start r scope (m.current.depth + 1))
      (.start r' scope (m'.current.depth + 1)) :=
    ⟨.nil, rfl, routine, L.framesNil, busy.current.depth.imp_right (congrArg (· + 1))⟩
  have waiting : Waiting.Alike L ⟨m.current, pending⟩ ⟨m'.current, pending'⟩ :=
    ⟨busy.current, busy.aligned, waits⟩
  exact busy.deepen (.running
    { busy.toAlike with current := started, outer := .cons waiting busy.outer } (L.start routine))

end Machine

end Quill
