import Quill.Proofs.Skipping.Noted

/-! What a run reports: the instructions that it skips, in the order that it comes to them and on
whatever level, and in the end the fault that it fails with, if it fails. -/
namespace Quill

def Machine.skipped (setup : Setup) : (fuel : Nat) → Machine → List Skip
  | 0, _ => []
  | fuel + 1, m =>
    (m.skips? setup).toList ++
      match m.step setup with
      | .running next => skipped setup fuel next
      | _ => []

inductive Transition.Reports (setup : Setup) (skips : List Skip) (bag : Diagnostics) :
    Transition → Prop where
  | ended {last : Machine} (all : last.diagnostics = bag ++ skips.map (·.report setup)) :
      Reports setup skips bag (.ended last)
  | failed {last : Machine} {e : RunError} (fatal : e.fault.isFatal)
      (all : last.diagnostics = bag ++ skips.map (·.report setup) ++
        [e.fault.diagnostic (setup.spanOf e.node)]) :
      Reports setup skips bag (.failed last e)

inductive Transition.Adds (setup : Setup) (ds : Diagnostics) (skips : List Skip) :
    Transition → Prop where
  | running {n : Machine} (all : n.diagnostics = ds ++ skips.map (·.report setup)) :
      Adds setup ds skips (.running n)
  | finished {t : Transition} (reports : t.Reports setup skips ds) : Adds setup ds skips t

section
variable {setup : Setup} {bag ds : Diagnostics} {skip : Option Skip} {t t' : Transition}
  {skips : List Skip} {m : Machine}

theorem Noted.noting (noted : Noted setup bag ds skip t t') : t' = t.noting bag := by
  cases noted with
  | running same => rfl
  | ended same => rfl
  | skips same => simp [Machine.skip, Machine.advance, Transition.noting, Machine.noting]
  | fails same fatal => simp [Machine.fail, Transition.noting, Machine.noting]

theorem Noted.adds (noted : Noted setup bag ds skip t t') : t.Adds setup ds skip.toList := by
  cases noted with
  | running same => exact .running (by simp [same])
  | ended same => exact .finished (.ended (by simp [same]))
  | skips same => exact .running (by simp [same, Skip.report])
  | fails same fatal => exact .finished (.failed fatal (by simp [same]))

theorem Transition.Reports.split {first : List Skip}
    (reports : t.Reports setup skips (ds ++ first.map (·.report setup))) :
    t.Reports setup (first ++ skips) ds := by
  cases reports with
  | ended all => exact .ended (by simp [all])
  | failed fatal all => exact .failed fatal (by simp [all])

theorem Transition.Reports.behind (reports : t.Reports setup skips []) (bag : Diagnostics) :
    (t.noting bag).Reports setup skips bag := by
  cases reports with
  | ended all => exact .ended (by simp [Machine.noting, all])
  | failed fatal all => exact .failed fatal (by simp [Machine.noting, all])

namespace Machine

theorem runNoting (fuel : Nat) : (m.noting bag).run setup fuel = (m.run setup fuel).noting bag := by
  induction fuel generalizing m with
  | zero => rfl
  | succ fuel ih =>
    have noted := (stepNoted setup bag m).noting
    rw [run, run, noted]
    cases m.step setup with
    | running n => exact ih
    | ended _ => rfl
    | failed _ _ => rfl

theorem runReports {fuel : Nat} (finished : (m.run setup fuel).isOver) :
    (m.run setup fuel).Reports setup (m.skipped setup fuel) m.diagnostics := by
  induction fuel generalizing m with
  | zero => cases finished
  | succ fuel ih =>
    have adds := (stepNoted setup [] m).adds
    rw [run, skipped]
    rw [run] at finished
    generalize m.step setup = t at finished adds
    cases adds with
    | running all =>
      have later := ih finished
      rw [all] at later
      exact later.split
    | finished reports =>
      cases reports with
      | ended all => exact .ended (by simpa using all)
      | failed fatal all => exact .failed fatal (by simpa using all)

end Machine

end

/-- A run that is over, with the caller's bag in front of what it reports: behind what was there are
the skips in order, each once, and one fatal fault just if the run has failed. A run that is given
the bag to begin with does the same. -/
theorem runReportsOnce (setup : Setup) (m : Machine) (code : Code) {fuel : Nat}
    (finished : ((m.load code).run setup fuel).isOver) (bag : Diagnostics) :
    (((m.load code).run setup fuel).noting bag).Reports setup ((m.load code).skipped setup fuel) bag ∧
      ((m.load code).noting bag).run setup fuel = ((m.load code).run setup fuel).noting bag :=
  ⟨(Machine.runReports finished).behind bag, Machine.runNoting fuel⟩

-- A jump to nowhere, and an argument with another in front of what fails.
def skipsAndFails : Code :=
  [.mk .jmp .null none, .mk .push (.str "print") none, .mk .load .null none,
    .mk .call (.list [.tuple .null (.code [.mk .jz (.str "x") none, .mk .pop .null none])]) none]

theorem skipsReported :
    let setup : Setup := ⟨.standard, [], none, true⟩
    let start := Machine.new.load skipsAndFails
    (start.run setup 6).isOver ∧
      start.skipped setup 6 = [⟨.jmp, "a jump offset", none⟩, ⟨.jz, "a jump offset", none⟩] ∧
      ∀ bag, ((start.run setup 6).noting bag).Reports setup (start.skipped setup 6) bag := by
  intro setup start
  have finished : (start.run setup 6).isOver := by decide +kernel
  exact ⟨finished, by decide +kernel,
    fun bag => (runReportsOnce setup Machine.new skipsAndFails finished bag).1⟩

end Quill
