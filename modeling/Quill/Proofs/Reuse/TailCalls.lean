import Quill.Proofs.Limits.Course
import Quill.Proofs.Typing.Discipline

/-! Calls that are the last act of one of the same closure, in any code. Their level waits, as it was,
for as long as arguments and defaults are evaluated, and then the call stays in the frame. -/
namespace Quill

/-- What a call of a closure waits for, on a level with some stack. -/
inductive Pending.ForCall (c : Closure) (stack : List Cell) : Pending → Prop where
  | argument {done : List Argument} {name : Option String} {rest : List Operand}
      {source : Option Nat} {below : List Cell} (callee : stack = ⟨.function c, source⟩ :: below) :
      ForCall c stack (.argument done name rest)
  | default {scope : Nat} {name : String} {rest : List (ClosureParam × Option Value)} :
      ForCall c stack (.default c scope name rest)

structure Waiting.Tail (c : Closure) (calls : Nat) (w : Waiting) : Prop where
  frames : w.level.frames.length = calls
  tail : Machine.isTailCall w.level c
  pending : w.pending.ForCall c w.level.stack

def Machine.Suspends (c : Closure) (calls : Nat) (outer : List Waiting) (m : Machine) : Prop :=
  ∃ above w, w.Tail c calls ∧ m.outer = above ++ w :: outer

/-- A step of a call that is the last act of one of the same closure: it changes the number of calls on
its level no more than it fails. -/
inductive TailStep (c : Closure) (calls : Nat) (outer : List Waiting) : Transition → Prop where
  | waits {m : Machine} (suspends : m.Suspends c calls outer) : TailStep c calls outer (.running m)
  | stays {m : Machine} (frames : m.current.frames.length = calls) (same : m.outer = outer) :
      TailStep c calls outer (.running m)
  | fails (m : Machine) (e : RunError) : TailStep c calls outer (.failed m e)

namespace Machine

variable {setup : Setup} {m : Machine} {c : Closure}

theorem evaluateTail {r : Routine} {scope : Nat} {pending : Pending}
    (tail : isTailCall m.current c) (waits : pending.ForCall c m.current.stack) :
    TailStep c m.current.frames.length m.outer (m.evaluate setup r scope pending) := by
  unfold evaluate
  dsimp only
  split
  · exact .fails _ _
  · exact .waits ⟨[], ⟨m.current, pending⟩, ⟨rfl, tail, waits⟩, rfl⟩

theorem invokeTail (reuses : setup.reusesFrames) (tail : isTailCall m.current c) (scope : Nat) :
    TailStep c m.current.frames.length m.outer (m.invoke setup c scope) := by
  cases calls : m.current.frames with
  | nil =>
    rw [isTailCall, calls] at tail
    cases tail
  | cons f frames =>
    rw [invokeCalled scope calls, if_pos (Bool.and_eq_true_iff.mpr ⟨reuses, tail⟩)]
    exact .stays rfl rfl

theorem fillParamsTail (reuses : setup.reusesFrames) (tail : isTailCall m.current c) (scope : Nat)
    (slots : List (ClosureParam × Option Value)) :
    TailStep c m.current.frames.length m.outer (m.fillParams setup c scope slots) := by
  induction slots generalizing m with
  | nil => exact invokeTail reuses tail scope
  | cons slot rest ih =>
    obtain ⟨p, v⟩ := slot
    cases v with
    | some v => exact ih (m := { m with scopes := m.scopes.define scope p.name v }) tail
    | none =>
      rw [fillParams]
      cases p.default with
      | some r => exact evaluateTail tail .default
      | none => exact .fails _ _

theorem callTail (reuses : setup.reusesFrames) (tail : isTailCall m.current c)
    {source : Option Nat} {below : List Cell}
    (callee : m.current.stack = ⟨.function c, source⟩ :: below) (args : List Argument) :
    TailStep c m.current.frames.length m.outer (m.callTop setup args) := by
  unfold callTop
  simp only [callee]
  unfold callClosure
  dsimp only
  split
  · exact fillParamsTail (m := { m.withStack below with scopes := _ }) reuses tail _ _
  · exact .fails _ _

theorem nextArgumentTail (reuses : setup.reusesFrames) (tail : isTailCall m.current c)
    {source : Option Nat} {below : List Cell}
    (callee : m.current.stack = ⟨.function c, source⟩ :: below) (done : List Argument)
    (left : List Operand) :
    TailStep c m.current.frames.length m.outer (m.nextArgument setup done left) := by
  unfold nextArgument
  split
  · exact callTail reuses tail callee done
  · exact evaluateTail tail (.argument callee)
  · exact .stays rfl rfl

theorem resumeTail (reuses : setup.reusesFrames) (tail : isTailCall m.current c) (v : Value)
    {pending : Pending} (waits : pending.ForCall c m.current.stack) :
    TailStep c m.current.frames.length m.outer (m.resume setup v pending) := by
  cases waits with
  | argument callee => exact nextArgumentTail reuses tail callee _ _
  | @default scope name rest =>
    exact fillParamsTail (m := { m with scopes := m.scopes.define scope name v }) reuses tail scope
      rest

variable {calls : Nat} {outer : List Waiting}

theorem courseSuspends {a : Account} {bound : Nat} {t : Transition} {above : List Waiting}
    {w : Waiting} (tail : w.Tail c calls) (waiting : a.outer = above ++ w :: outer)
    (course : Course setup a bound t) : TailStep c calls outer t := by
  cases course with
  | stays same _ _ => exact .waits ⟨above, w, tail, (congrArg Account.outer same).trans waiting⟩
  | calls same _ => exact .waits ⟨above, w, tail, (congrArg Account.outer same).trans waiting⟩
  | @starts m w' same _ _ _ =>
    refine .waits ⟨w' :: above, w, tail, ?_⟩
    rw [List.cons_append, ← waiting]
    exact congrArg Account.outer same
  | fails _ _ _ => exact .fails _ _

theorem endLevelTail (reuses : setup.reusesFrames) (suspends : m.Suspends c calls outer) :
    TailStep c calls outer (m.endLevel setup) := by
  obtain ⟨above, w, tail, waiting⟩ := suspends
  cases above with
  | nil =>
    simp only [endLevel, waiting, List.nil_append]
    have resumes := resumeTail
      (m := { m with current := peakBelow w.level m.current, outer := outer }) reuses tail.tail
      (m.current.top?.getD .none) tail.pending
    rw [← tail.frames]
    exact resumes
  | cons w' above =>
    exact courseSuspends tail (rfl : _ = above ++ w :: outer) (endLevelCourse setup waiting)

theorem Suspends.step (reuses : setup.reusesFrames) (suspends : m.Suspends c calls outer) :
    TailStep c calls outer (m.step setup) := by
  have course := stepCourse setup m
  generalize m.executes setup = counts, m.step setup = t at course ⊢
  obtain ⟨above, w, tail, waiting⟩ := id suspends
  cases course with
  | ends => exact endLevelTail reuses suspends
  | exits => exact endLevelTail (m := { m with steps := m.steps + 1 }) reuses suspends
  | refused _ => exact .fails _ _
  | returns _ => exact courseSuspends tail waiting (returnFromCourse setup _ 0)
  | goes course => exact courseSuspends tail waiting course

theorem Suspends.height {frames : List Frame} (suspends : m.Suspends c frames.length outer) :
    heightOf frames outer < m.height := by
  obtain ⟨above, w, tail, waiting⟩ := suspends
  have waits := tail.frames
  unfold Machine.height heightOf
  rw [waiting, List.map_append, List.sum_append, List.map_cons, List.sum_cons]
  omega

theorem firstStays {frames : List Frame} {fuel : Nat} {down : Machine}
    (step : TailStep c frames.length outer (m.step setup))
    (first : m.FirstDown setup (heightOf frames outer) (fuel + 1) down)
    (later : ∀ {next : Machine}, next.Suspends c frames.length outer →
      next.FirstDown setup (heightOf frames outer) fuel down →
        down.current.frames.length = frames.length ∧ down.outer = outer) :
    down.current.frames.length = frames.length ∧ down.outer = outer := by
  obtain ⟨next, stepped, rest⟩ := first.next
  rw [stepped] at step
  cases step with
  | waits suspends =>
    rcases rest with ⟨-, rfl⟩ | ⟨-, rest⟩
    · exact (Nat.not_le.mpr suspends.height first.low).elim
    · exact later suspends rest
  | stays same outer =>
    rcases rest with ⟨-, rfl⟩ | ⟨high, -⟩
    · exact ⟨same, outer⟩
    · unfold height heightOf at high
      rw [same, outer] at high
      exact (Nat.lt_irrefl _ high).elim

theorem Suspends.stays (reuses : setup.reusesFrames) {frames : List Frame} {fuel : Nat}
    {down : Machine} (suspends : m.Suspends c frames.length outer)
    (first : m.FirstDown setup (heightOf frames outer) fuel down) :
    down.current.frames.length = frames.length ∧ down.outer = outer := by
  induction fuel generalizing m with
  | zero => cases first.later
  | succ fuel ih =>
    have step := suspends.step reuses
    exact firstStays step first fun suspends first => ih suspends first

end Machine

end Quill
