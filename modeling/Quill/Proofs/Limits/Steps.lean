import Mathlib.Algebra.GroupWithZero.Nat
import Quill.Proofs.Limits.Course

/-! The limit of steps. Instructions are counted on all levels together, so that a limit bounds how
many a run executes. What a run does between two of them comes to an end by itself: it returns from
calls, and ends levels that wait for ever less. -/
namespace Quill

/-- A bound on the steps that follow one another without an instruction: returns from calls, and
ends of levels, as many as those that wait may still start. -/
def Account.idle (a : Account) : Nat :=
  a.level.calls + (a.outer.map fun w => w.level.frames.length + w.toStart + 2).sum

def Machine.executed (setup : Setup) : (fuel : Nat) → Machine → Nat
  | 0, _ => 0
  | fuel + 1, m =>
    (if m.executes setup then 1 else 0) +
      match m.step setup with
      | .running next => executed setup fuel next
      | _ => 0

structure Machine.WithinSteps (setup : Setup) (limit : Nat) (m : Machine) : Prop where
  halts : ∃ t, m.Halts setup t
  executed (fuel : Nat) : m.executed setup fuel ≤ limit
  -- Where it would take one more instruction, it fails.
  stopped {fuel : Nat} {n : Machine} (reached : m.run setup fuel = .running n)
    (needs : n.current.instr?.isSome) (full : m.executed setup fuel = limit) :
    ∃ last e, m.run setup (fuel + 1) = .failed last e ∧ e.fault = .stepLimit limit
  -- It fails for the limit nowhere else.
  only {fuel : Nat} {last : Machine} {e : RunError} {n : Nat}
    (failed : m.run setup fuel = .failed last e) (cause : e.fault = .stepLimit n) :
    n = limit ∧ m.executed setup fuel = limit

section
variable {setup : Setup} {a : Account} {bound : Nat} {n : Machine}

theorem Course.steps (course : Course setup a bound (.running n)) : n.steps = a.steps := by
  cases course with
  | stays same _ _ => exact congrArg Account.steps same
  | calls same _ => exact congrArg Account.steps same
  | starts same _ _ _ => exact congrArg Account.steps same

theorem Course.idle (course : Course setup a bound (.running n)) :
    n.account.idle < a.idle + bound + 2 := by
  cases course with
  | stays same fewer _ =>
    rw [same]
    simp only [Account.idle]
    omega
  | calls same _ =>
    rw [same]
    simp only [Account.idle]
    omega
  | @starts _ w same waits fewer _ =>
    have calls : w.level.frames.length = a.level.calls := congrArg Tally.calls waits
    rw [same]
    simp only [Account.idle, List.map_cons, List.sum_cons]
    omega

theorem Course.cause {last : Machine} {e : RunError}
    (course : Course setup a bound (.failed last e)) (limit : Nat) : e.fault ≠ .stepLimit limit := by
  cases course with
  | @fails _ _ _ fault _ _ failed cause =>
    have same : fault = e.fault := by
      cases failed
      rfl
    rw [← same]
    rintro rfl
    rcases cause with other | ⟨deep, -⟩
    · exact other trivial
    · cases deep

end

namespace Machine

variable {setup : Setup} {m n : Machine}

theorem endLevelIdles (ended : m.endLevel setup = .running n) :
    n.steps = m.steps ∧ n.account.idle < m.account.idle := by
  cases waiting : m.outer with
  | nil => simp only [endLevel, waiting, reduceCtorEq] at ended
  | cons w outer =>
    have course := endLevelCourse setup waiting
    rw [ended] at course
    refine ⟨course.steps, Nat.lt_of_lt_of_le course.idle ?_⟩
    simp only [Account.idle, account, Level.tally, peakBelow, waiting, List.map_cons, List.sum_cons]
    omega

theorem stepGoesOn (stepped : m.step setup = .running n) :
    (m.executes setup = true ∧ n.steps = m.steps + 1) ∨
      (m.executes setup = false ∧ n.steps = m.steps ∧ n.account.idle < m.account.idle) := by
  have course := stepCourse setup m
  generalize m.step setup = t at course stepped
  generalize m.executes setup = executes at course ⊢
  cases course with
  | ends => exact .inr ⟨rfl, endLevelIdles stepped⟩
  | returns calls =>
    rw [returnCalled (m := m.withStack (⟨.none, none⟩ :: m.current.stack)) calls] at stepped
    cases stepped
    refine .inr ⟨rfl, rfl, ?_⟩
    simp only [Account.idle, account, Level.tally, Level.returned, withStack, calls,
      List.length_cons]
    omega
  | refused _ => cases stepped
  | exits => exact .inl ⟨rfl, (endLevelIdles stepped).1⟩
  | goes course =>
    rw [stepped] at course
    exact .inl ⟨rfl, course.steps⟩

theorem stepCounted (stepped : m.step setup = .running n) :
    n.steps = m.steps + if m.executes setup then 1 else 0 := by
  rcases stepGoesOn stepped with ⟨executes, steps⟩ | ⟨idles, steps, -⟩
  · rw [if_pos executes, steps]
  · rw [idles, steps]
    rfl

section
variable {limit : Nat}

theorem executesWithin (limited : setup.limits.maxSteps = some limit)
    (executes : m.executes setup = true) : m.steps < limit := by
  rw [Machine.executes, Bool.and_eq_true_iff] at executes
  have fits := executes.2
  simp only [overLimit?, limited] at fits
  split at fits
  · cases fits
  · omega

theorem stepStops (limited : setup.limits.maxSteps = some limit) (full : m.steps = limit)
    (needs : m.current.instr?.isSome) :
    ∃ last e, m.step setup = .failed last e ∧ e.fault = .stepLimit limit := by
  obtain ⟨i, found⟩ := Option.isSome_iff_exists.mp needs
  have beyond : { m with steps := m.steps + 1 }.overLimit? setup.limits = some (.stepLimit limit) := by
    simp only [overLimit?, limited]
    exact if_pos (by omega)
  rw [stepBeyond found beyond]
  exact ⟨_, _, rfl, rfl⟩

theorem endLevelCause {last : Machine} {e : RunError} (failed : m.endLevel setup = .failed last e)
    (n : Nat) : e.fault ≠ .stepLimit n := by
  cases waiting : m.outer with
  | nil => simp only [endLevel, waiting, reduceCtorEq] at failed
  | cons w outer =>
    have course := endLevelCourse setup waiting
    rw [failed] at course
    exact course.cause n

theorem stepCause {last : Machine} {e : RunError} {n : Nat} (failed : m.step setup = .failed last e)
    (cause : e.fault = .stepLimit n) :
    m.executes setup = false ∧ setup.limits.maxSteps = some n ∧ n ≤ m.steps := by
  have course := stepCourse setup m
  generalize m.step setup = t at course failed
  generalize m.executes setup = executes at course ⊢
  cases course with
  | ends => exact (endLevelCause failed n cause).elim
  | returns _ =>
    have course := returnFromCourse setup (m.withStack (⟨.none, none⟩ :: m.current.stack)) 0
    rw [failed] at course
    exact (course.cause n cause).elim
  | @refused fault beyond =>
    cases failed
    change fault = .stepLimit n at cause
    subst cause
    refine ⟨rfl, ?_⟩
    unfold overLimit? overLimit?.overStack at beyond
    repeat' split at beyond
    all_goals cases beyond
    rename_i limited beyond
    exact ⟨limited, Nat.le_of_lt_succ beyond⟩
  | exits => exact (endLevelCause failed n cause).elim
  | goes course =>
    rw [failed] at course
    exact (course.cause n cause).elim

theorem haltsWithin (limited : setup.limits.maxSteps = some limit) (m : Machine) :
    ∃ t, m.Halts setup t := by
  cases stepped : m.step setup with
  | ended last => exact ⟨.ended last, rfl, 1, (runOne setup m).trans stepped⟩
  | failed last e => exact ⟨.failed last e, rfl, 1, (runOne setup m).trans stepped⟩
  | running next =>
    have progress := stepGoesOn stepped
    obtain ⟨t, finished, fuel, ended⟩ := haltsWithin limited next
    exact ⟨t, finished, 1 + fuel,
      (runGoesOn ((runOne setup m).trans stepped) fuel).trans ended⟩
termination_by (limit - m.steps, m.account.idle)
decreasing_by
  rcases progress with ⟨executes, steps⟩ | ⟨-, steps, fewer⟩
  · have room := executesWithin limited executes
    exact Prod.Lex.left _ _ (by omega)
  · rw [steps]
    exact Prod.Lex.right _ fewer

theorem executedWithin (limited : setup.limits.maxSteps = some limit) (fuel : Nat)
    (within : m.steps ≤ limit) : m.steps + m.executed setup fuel ≤ limit := by
  induction fuel generalizing m with
  | zero => exact within
  | succ fuel ih =>
    have room : m.steps + (if m.executes setup then 1 else 0) ≤ limit := by
      split
      · rename_i executes
        exact executesWithin limited executes
      · exact within
    rw [executed]
    cases stepped : m.step setup with
    | running next =>
      have counted := stepCounted stepped
      have later := ih (m := next) (counted ▸ room)
      dsimp only
      omega
    | ended _ => exact room
    | failed _ _ => exact room

theorem runExecuted {fuel : Nat} (reached : m.run setup fuel = .running n) :
    n.steps = m.steps + m.executed setup fuel := by
  induction fuel generalizing m with
  | zero =>
    cases reached
    rfl
  | succ fuel ih =>
    rw [run] at reached
    rw [executed]
    cases stepped : m.step setup with
    | running next =>
      rw [stepped] at reached
      have counted := stepCounted stepped
      have later := ih reached
      dsimp only
      omega
    | ended _ => rw [stepped] at reached; cases reached
    | failed _ _ => rw [stepped] at reached; cases reached

theorem runCause {fuel : Nat} {last : Machine} {e : RunError} {k : Nat}
    (failed : m.run setup fuel = .failed last e) (cause : e.fault = .stepLimit k) :
    setup.limits.maxSteps = some k ∧ k ≤ m.steps + m.executed setup fuel := by
  induction fuel generalizing m with
  | zero => cases failed
  | succ fuel ih =>
    rw [run] at failed
    rw [executed]
    cases stepped : m.step setup with
    | running next =>
      rw [stepped] at failed
      have counted := stepCounted stepped
      obtain ⟨limited, enough⟩ := ih failed
      refine ⟨limited, ?_⟩
      dsimp only
      omega
    | ended _ => rw [stepped] at failed; cases failed
    | failed _ _ =>
      rw [stepped] at failed
      cases failed
      obtain ⟨-, limited, enough⟩ := stepCause stepped cause
      exact ⟨limited, Nat.le_trans enough (Nat.le_add_right _ _)⟩

end

end Machine

/-- Where steps are limited, all runs come to an end, whatever code they are of, and execute no more
instructions than the limit says. -/
theorem stepsBounded (setup : Setup) {limit : Nat} (limited : setup.limits.maxSteps = some limit)
    (m : Machine) (code : Code) : (m.load code).WithinSteps setup limit := by
  have start : (m.load code).steps = 0 := rfl
  have within (fuel : Nat) : (m.load code).executed setup fuel ≤ limit := by
    have within := Machine.executedWithin limited (m := m.load code) fuel (Nat.zero_le _)
    omega
  refine ⟨Machine.haltsWithin limited _, within, fun reached needs full => ?_, fun failed cause => ?_⟩
  · have counted := Machine.runExecuted reached
    obtain ⟨last, e, fails, cause⟩ := Machine.stepStops limited (by omega) needs
    exact ⟨last, e, (Machine.runGoesOn reached 1).trans ((Machine.runOne _ _).trans fails), cause⟩
  · obtain ⟨limited', enough⟩ := Machine.runCause failed cause
    cases limited.symm.trans limited'
    rw [start, Nat.zero_add] at enough
    exact ⟨rfl, Nat.le_antisymm (within _) enough⟩

-- An argument that is evaluated without end.
def endlessArgument : Code :=
  [.mk .call (.list [.tuple (.str "x") (.code [.mk .jmp (.int (-1)) none])]) none]

theorem endlessStopped : ∃ last e,
    (Machine.new.load endlessArgument).run ⟨⟨1000, some 5, 10000⟩, [], none, true⟩ 6 =
      .failed last e ∧ e.fault = .stepLimit 5 :=
  (stepsBounded ⟨⟨1000, some 5, 10000⟩, [], none, true⟩ rfl Machine.new endlessArgument).stopped rfl
    (by decide) (by decide)

end Quill
