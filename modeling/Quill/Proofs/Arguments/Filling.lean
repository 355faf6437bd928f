import Quill.Proofs.Limits.Course

/-! The run of a call from its arguments to its body. A parameter with an argument takes its value;
for one without, its default is evaluated on a level of its own, in the scope of the parameters
before it, and unless that fails or never ends, its value is the parameter's. -/
namespace Quill

def Transition.onward (setup : Setup) (fuel : Nat) : Transition → Transition
  | .running m => m.run setup fuel
  | t => t

namespace Machine

def leaving? (setup : Setup) (m : Machine) : Option Machine :=
  match m.current.instr? with
  | some i =>
    let counted := { m with steps := m.steps + 1 }
    if i.opcode = .exit ∧ counted.overLimit? setup.limits = none then some counted else none
  | none => if m.current.frames.isEmpty then some m else none

/-- It works above some waiting levels, and the next step does not end the lowest level there. -/
structure Remains (setup : Setup) (waiting : List Waiting) (m : Machine) : Prop where
  above : waiting <:+ m.outer
  stays : m.outer = waiting → m.leaving? setup = none

end Machine

inductive Evaluates (setup : Setup) (waiting : List Waiting) : Machine → Nat → Machine → Prop where
  | leaves {m last : Machine} (above : m.outer = waiting) (left : m.leaving? setup = some last) :
      Evaluates setup waiting m 0 last
  | step {m n last : Machine} {steps : Nat} (remains : m.Remains setup waiting)
      (stepped : m.step setup = .running n) (rest : Evaluates setup waiting n steps last) :
      Evaluates setup waiting m (steps + 1) last

inductive Continues (setup : Setup) (waiting : List Waiting) :
    Machine → Nat → Transition → Prop where
  | still {m : Machine} (above : waiting <:+ m.outer) : Continues setup waiting m 0 (.running m)
  | fails {m last : Machine} {e : RunError} {fuel : Nat} (remains : m.Remains setup waiting)
      (failed : m.step setup = .failed last e) :
      Continues setup waiting m (fuel + 1) (.failed last e)
  | step {m n : Machine} {fuel : Nat} {t : Transition} (remains : m.Remains setup waiting)
      (stepped : m.step setup = .running n) (rest : Continues setup waiting n fuel t) :
      Continues setup waiting m (fuel + 1) t

inductive Fills (setup : Setup) (c : Closure) (scope : Nat) :
    Machine → List (ClosureParam × Option Value) → Nat → Transition → Prop where
  | called {m : Machine} {fuel : Nat} :
      Fills setup c scope m [] fuel ((m.invoke setup c scope).onward setup fuel)
  | given {m : Machine} {p : ClosureParam} {v : Value} {rest : List (ClosureParam × Option Value)}
      {fuel : Nat} {t : Transition}
      (more : Fills setup c scope { m with scopes := m.scopes.define scope p.name v } rest fuel t) :
      Fills setup c scope m ((p, some v) :: rest) fuel t
  | tooDeep {m : Machine} {p : ClosureParam} {rest : List (ClosureParam × Option Value)}
      {fuel : Nat} (default : p.default.isSome)
      (deep : setup.limits.maxCallDepth < m.current.depth + 1) :
      Fills setup c scope m ((p, none) :: rest) fuel
        (m.fail setup (.callDepth setup.limits.maxCallDepth) none)
  | evaluating {m inner : Machine} {p : ClosureParam} {r : Routine}
      {rest : List (ClosureParam × Option Value)} {fuel : Nat} {t : Transition}
      (default : p.default = some r)
      (started : m.evaluate setup r scope (.default c scope p.name rest) = .running inner)
      (continues : Continues setup inner.outer inner fuel t) :
      Fills setup c scope m ((p, none) :: rest) fuel t
  | evaluated {m inner last : Machine} {p : ClosureParam} {r : Routine}
      {rest : List (ClosureParam × Option Value)} {steps fuel : Nat} {t : Transition}
      (default : p.default = some r)
      (started : m.evaluate setup r scope (.default c scope p.name rest) = .running inner)
      (evaluates : Evaluates setup inner.outer inner steps last)
      (more : Fills setup c scope
        { last with
          scopes := last.scopes.define scope p.name (last.current.top?.getD .none)
          current := Machine.peakBelow m.current last.current, outer := m.outer } rest fuel t) :
      Fills setup c scope m ((p, none) :: rest) (steps + 1 + fuel) t

inductive Transition.Above (waiting : List Waiting) : Transition → Prop where
  | running {m : Machine} (above : waiting <:+ m.outer) : Above waiting (.running m)
  | failed {m : Machine} {e : RunError} : Above waiting (.failed m e)

section
variable {setup : Setup} {a : Account} {bound : Nat} {t : Transition} {waiting : List Waiting}

theorem Course.above (course : Course setup a bound t) (above : waiting <:+ a.outer) :
    t.Above waiting := by
  cases course with
  | fails => exact .failed
  | stays same =>
    have outer : Machine.outer _ = a.outer := congrArg Account.outer same
    exact .running (outer ▸ above)
  | calls same =>
    have outer : Machine.outer _ = a.outer := congrArg Account.outer same
    exact .running (outer ▸ above)
  | starts same =>
    have outer : Machine.outer _ = _ :: a.outer := congrArg Account.outer same
    exact .running (outer ▸ above.trans (List.suffix_cons _ _))

theorem Continues.above {m : Machine} {fuel : Nat} (continues : Continues setup waiting m fuel t) :
    t.Above waiting := by
  induction continues with
  | still above => exact .running above
  | fails => exact .failed
  | step _ _ _ ih => exact ih

end

namespace Machine
variable {setup : Setup} {m last : Machine} {waiting : List Waiting}

theorem runStep (fuel : Nat) : m.run setup (fuel + 1) = (m.step setup).onward setup fuel := by
  rw [run]
  cases m.step setup <;> rfl

theorem leavingStep (left : m.leaving? setup = some last) :
    m.step setup = last.endLevel setup ∧ last.current = m.current ∧ last.outer = m.outer := by
  unfold leaving? at left
  cases found : m.current.instr? with
  | none =>
    simp only [found, Option.ite_none_right_eq_some, List.isEmpty_iff, Option.some.injEq] at left
    obtain ⟨free, rfl⟩ := left
    exact ⟨stepEnds found free, rfl, rfl⟩
  | some i =>
    simp only [found, Option.ite_none_right_eq_some, Option.some.injEq] at left
    obtain ⟨⟨exits, fits⟩, rfl⟩ := left
    exact ⟨(stepWithin found fits).trans (execExit exits), rfl, rfl⟩

theorem leavingAbove (left : m.leaving? setup = some last) (above : waiting <:+ m.outer)
    (higher : m.outer ≠ waiting) :
    (m.step setup).Above waiting := by
  obtain ⟨ends, -, same⟩ := leavingStep left
  rw [ends]
  obtain ⟨levels, split⟩ := above
  cases levels with
  | nil => exact (higher split.symm).elim
  | cons w levels =>
    refine (endLevelCourse setup (same.trans split.symm)).above ?_
    exact List.suffix_append _ _

theorem stepAbove (stays : m.leaving? setup = none) (above : waiting <:+ m.outer) :
    (m.step setup).Above waiting := by
  cases found : m.current.instr? with
  | none =>
    cases calls : m.current.frames with
    | nil => simp [leaving?, found, calls] at stays
    | cons f frames =>
      rw [stepReturns found (calls ▸ List.cons_ne_nil f frames)]
      exact (returnFromCourse setup _ 0).above above
  | some i =>
    cases beyond : { m with steps := m.steps + 1 }.overLimit? setup.limits with
    | some fault =>
      rw [stepBeyond found beyond]
      exact .failed
    | none =>
      have others : i.opcode ≠ .exit := by
        intro exits
        simp [leaving?, found, exits, beyond] at stays
      rw [stepWithin found beyond]
      obtain ⟨bound, course⟩ := execCourse setup { m with steps := m.steps + 1 } i others
      exact course.above above

theorem Remains.step (remains : m.Remains setup waiting) : (m.step setup).Above waiting := by
  cases leaves : m.leaving? setup with
  | none => exact stepAbove leaves remains.above
  | some last =>
    refine leavingAbove leaves remains.above fun lowest => ?_
    have stays := remains.stays lowest
    rw [leaves] at stays
    cases stays

theorem levelRuns (above : waiting <:+ m.outer) (fuel : Nat) :
    Continues setup waiting m fuel (m.run setup fuel) ∨
      ∃ steps more last, fuel = steps + 1 + more ∧ Evaluates setup waiting m steps last ∧
        last.outer = waiting ∧ m.run setup fuel = (last.endLevel setup).onward setup more := by
  induction fuel generalizing m with
  | zero => exact .inl (.still above)
  | succ fuel ih =>
    -- Until the lowest level above those that wait is at its end, every step stays above them.
    by_cases remains : m.Remains setup waiting
    · rw [runStep]
      have next := remains.step
      cases stepped : m.step setup with
      | failed last e => exact .inl (.fails remains stepped)
      | ended last =>
        rw [stepped] at next
        cases next
      | running n =>
        rw [stepped] at next
        cases next with
        | running above =>
          rcases ih above with still | ⟨steps, more, last, rfl, evaluates, outer, ends⟩
          · exact .inl (.step remains stepped still)
          · exact .inr ⟨steps + 1, more, last, by omega, .step remains stepped evaluates, outer,
              ends⟩
    · obtain ⟨lowest, leaves⟩ : m.outer = waiting ∧ m.leaving? setup ≠ none := by
        by_contra stays
        exact remains ⟨above, fun lowest => by_contra fun leaves => stays ⟨lowest, leaves⟩⟩
      obtain ⟨last, left⟩ := Option.ne_none_iff_exists'.mp leaves
      obtain ⟨ends, -, same⟩ := leavingStep left
      refine .inr ⟨0, fuel, last, by omega, .leaves lowest left, same.trans lowest, ?_⟩
      rw [runStep, ends]

theorem evaluateCases (setup : Setup) (m : Machine) (r : Routine) (scope : Nat)
    (pending : Pending) : (setup.limits.maxCallDepth < m.current.depth + 1 ∧
      m.evaluate setup r scope pending =
        m.fail setup (.callDepth setup.limits.maxCallDepth) none) ∨
      ∃ inner, m.evaluate setup r scope pending = .running inner ∧
        inner.outer = ⟨m.current, pending⟩ :: m.outer := by
  by_cases deep : setup.limits.maxCallDepth < m.current.depth + 1
  · exact .inl ⟨deep, if_pos deep⟩
  · exact .inr ⟨_, if_neg deep, rfl⟩

theorem evaluateOuter {inner : Machine} {r : Routine} {scope : Nat} {pending : Pending}
    (started : m.evaluate setup r scope pending = .running inner) :
    inner.outer = ⟨m.current, pending⟩ :: m.outer := by
  rcases evaluateCases setup m r scope pending with ⟨-, fails⟩ | ⟨_, same, outer⟩
  · cases started.symm.trans fails
  · cases started.symm.trans same
    exact outer

theorem evaluateRuns {inner : Machine} {r : Routine} {scope : Nat} {pending : Pending}
    (started : m.evaluate setup r scope pending = .running inner) (fuel : Nat) :
    Continues setup inner.outer inner fuel (inner.run setup fuel) ∨
      ∃ steps more last, fuel = steps + 1 + more ∧ Evaluates setup inner.outer inner steps last ∧
        inner.run setup fuel = ({ last with
          current := peakBelow m.current last.current, outer := m.outer }.resume setup
            (last.current.top?.getD .none) pending).onward setup more := by
  rcases levelRuns List.suffix_rfl fuel with
    continues | ⟨steps, more, last, split, evaluates, outer, ends⟩
  · exact .inl continues
  · refine .inr ⟨steps, more, last, split, evaluates, ?_⟩
    rw [ends, endLevel, outer.trans (evaluateOuter started)]

theorem fillsParams {c : Closure} {scope : Nat} {slots : List (ClosureParam × Option Value)}
    (defaulted : ∀ slot ∈ slots, slot.2 = none → slot.1.default.isSome) (m : Machine) (fuel : Nat) :
    Fills setup c scope m slots fuel ((m.fillParams setup c scope slots).onward setup fuel) := by
  induction slots generalizing m fuel with
  | nil => exact .called
  | cons slot rest ih =>
    obtain ⟨first, others⟩ := List.forall_mem_cons.mp defaulted
    obtain ⟨p, v⟩ := slot
    cases v with
    | some v => exact .given (ih others _ fuel)
    | none =>
      obtain ⟨r, default : p.default = some r⟩ := Option.isSome_iff_exists.mp (first rfl)
      simp only [fillParams, default]
      rcases evaluateCases setup m r scope (.default c scope p.name rest) with
        ⟨deep, fails⟩ | ⟨inner, started, -⟩
      · rw [fails]
        exact .tooDeep (by simp [default]) deep
      · rw [started]
        rcases evaluateRuns started fuel with continues | ⟨steps, more, last, rfl, evaluates, ends⟩
        · exact .evaluating default started continues
        · refine .evaluated default started evaluates ?_
          rw [Transition.onward, ends]
          exact ih others _ more

end Machine

end Quill
