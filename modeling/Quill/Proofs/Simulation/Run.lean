import Quill.Proofs.Simulation.Instructions

/-! Runs of machines that correspond. Where each step on the right is matched by one or more steps
on the left, both runs end alike or neither ends. -/
namespace Quill

def Transition.isOver : Transition → Bool
  | .running _ => false
  | .ended _ | .failed .. => true

namespace Machine

def Halts (setup : Setup) (m : Machine) (t : Transition) : Prop :=
  t.isOver ∧ ∃ fuel, m.run setup fuel = t

theorem runOne (setup : Setup) (m : Machine) : m.run setup 1 = m.step setup := by
  unfold run
  split
  · rename_i next found
    exact found.symm
  · rfl

theorem runAdd (setup : Setup) (m : Machine) (first more : Nat) :
    m.run setup (first + more) =
      match m.run setup first with
      | .running next => next.run setup more
      | done => done := by
  induction first generalizing m with
  | zero => rw [Nat.zero_add, run]
  | succ first ih =>
    rw [Nat.succ_add, run, run]
    cases m.step setup with
    | running next => exact ih next
    | ended _ => rfl
    | failed _ _ => rfl

theorem runGoesOn {setup : Setup} {m next : Machine} {first : Nat}
    (reached : m.run setup first = .running next) (more : Nat) :
    m.run setup (first + more) = next.run setup more := by
  rw [runAdd, reached]

theorem runStays {setup : Setup} {m : Machine} {t : Transition} {first : Nat}
    (ended : m.run setup first = t) (finished : t.isOver) (more : Nat) :
    m.run setup (first + more) = t := by
  rw [runAdd, ended]
  cases t with
  | running _ => cases finished
  | ended _ => rfl
  | failed _ _ => rfl

theorem haltsOnce {setup : Setup} {m : Machine} {t u : Transition} (one : m.Halts setup t)
    (other : m.Halts setup u) : t = u := by
  obtain ⟨finished, first, ended⟩ := one
  obtain ⟨finished', more, ended'⟩ := other
  have a := runStays ended finished more
  have b := runStays ended' finished' first
  rw [Nat.add_comm] at b
  exact a.symm.trans b

end Machine

inductive Transition.Keeps (R : Machine → Machine → Prop) (P : Transition → Transition → Prop) :
    Transition → Transition → Prop where
  | running {m m' : Machine} (related : R m m') : Keeps R P (.running m) (.running m')
  | finished {t t' : Transition} (finished : t.isOver) (finished' : t'.isOver) (related : P t t') :
      Keeps R P t t'

section
variable {left right : Setup} {R : Machine → Machine → Prop} {P : Transition → Transition → Prop}

end

namespace Machine

theorem stepRuns {setup : Setup} {m : Machine} {i : Instr} (found : m.current.instr? = some i)
    (unlimited : setup.limits.maxSteps = none)
    (fits : m.current.stack.length ≤ setup.limits.maxStackSize) :
    m.step setup = { m with steps := m.steps + 1 }.exec setup i := by
  unfold step
  simp only [found, overLimit?, unlimited, overLimit?.overStack, if_neg (Nat.not_lt.mpr fits)]

theorem stepStopped {setup : Setup} {m : Machine} {i : Instr} (found : m.current.instr? = some i)
    (unlimited : setup.limits.maxSteps = none)
    (beyond : setup.limits.maxStackSize < m.current.stack.length) :
    m.step setup = { m with steps := m.steps + 1 }.fail setup
      (.stackLimit setup.limits.maxStackSize) none := by
  unfold step
  simp only [found, overLimit?, unlimited, overLimit?.overStack, if_pos beyond]

theorem stepEnds {setup : Setup} {m : Machine} (behind : m.current.instr? = none)
    (free : m.current.frames = []) : m.step setup = m.endLevel setup := by
  unfold step
  simp only [behind, free]

theorem stepReturns {setup : Setup} {m : Machine} (behind : m.current.instr? = none)
    (called : m.current.frames ≠ []) :
    m.step setup = (m.withStack (⟨.none, none⟩ :: m.current.stack)).returnFrom := by
  unfold step
  simp only [behind]

def Quiet (setup : Setup) (m : Machine) : Prop :=
  ∀ fuel last e, m.run setup fuel = .failed last e → ∀ limit, e.fault ≠ .stackLimit limit

section
variable {setup : Setup} {m : Machine}

end

variable {L : Link}

theorem Busy.stepWith {m m' : Machine} {i i' : Instr} (busy : m.Busy L m')
    (found : m.current.instr? = some i) (found' : m'.current.instr? = some i')
    (unlimited : L.left.limits.maxSteps = none)
    (runs : Machine.Busy L { m with steps := m.steps + 1 } { m' with steps := m'.steps + 1 } →
      Transition.Alike L ({ m with steps := m.steps + 1 }.exec L.left i)
        ({ m' with steps := m'.steps + 1 }.exec L.right i')) :
    Transition.Alike L (m.step L.left) (m'.step L.right) := by
  have height := busy.current.stack.length_eq
  have unlimited' : L.right.limits.maxSteps = none := L.limits ▸ unlimited
  have counted : Machine.Busy L { m with steps := m.steps + 1 }
      { m' with steps := m'.steps + 1 } := { busy with }
  by_cases fits : m.current.stack.length ≤ L.left.limits.maxStackSize
  · rw [stepRuns found unlimited fits, stepRuns found' unlimited' (by rw [← L.limits]; omega)]
    exact runs counted
  · rw [stepStopped found unlimited (by omega),
      stepStopped found' unlimited' (by rw [← L.limits]; omega), ← L.limits]
    exact counted.fail _

theorem Busy.step (invokes : L.Invokes) {m m' : Machine} {i i' : Instr} (busy : m.Busy L m')
    (found : m.current.instr? = some i) (found' : m'.current.instr? = some i')
    (unlimited : L.left.limits.maxSteps = none) (alike : i.Alike L m.current m'.current i')
    (ready : i.opcode = .call → L.ready m'.current.stack.tail m'.current.frames)
    (stays : i.opcode ≠ .ret) : Transition.Alike L (m.step L.left) (m'.step L.right) :=
  busy.stepWith found found' unlimited fun counted => counted.exec invokes alike ready stays

end Machine

/-! A program that leaves a function to its next run. There the function is called as the last act of
one with the same code, if the program is loaded as the same unit; in a new unit it is called like
any other, one call deeper. -/

end Quill
