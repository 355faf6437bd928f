import Quill.Proofs.Offsets.Reentry
import Quill.Proofs.Reuse.Frames
import Quill.Proofs.Reuse.TailCalls
import Quill.Proofs.Typing.Discipline

/-! Reuse of calls changes nothing but the depth of calls, in compiled programs, in which a call that
takes the place of its caller finds all that was below the caller still on the stack. -/
namespace Quill

namespace Machine

def Roomy (setup : Setup) (m : Machine) : Prop :=
  ∀ fuel last e, m.run setup fuel = .failed last e → ¬ e.fault.Overflow

end Machine

variable {setup : Setup} {code : Code} {final : Point} {m m' : Machine}

namespace Machine

theorem Roomy.later {next : Machine} {fuel : Nat} (roomy : m.Roomy setup)
    (reached : m.run setup fuel = .running next) : next.Roomy setup := by
  intro more last e failed
  exact roomy (fuel + more) last e ((runGoesOn reached more).trans failed)

theorem Roomy.quiet (roomy : m.Roomy setup) : m.Quiet setup := by
  intro fuel last e failed limit same
  refine roomy fuel last e failed ?_
  rw [same]
  trivial

theorem Fit.ready {P : Whole} {K : List Caller} {i : Instr} (fit : m.Fit P K)
    (found : m.current.instr? = some i) (op : i.opcode = .call) :
    ∀ f, m.current.frames.head? = some f → f.stackBase ≤ m.current.stack.tail.length := by
  intro f first
  obtain ⟨main, points, p, above, below, work⟩ := fit
  obtain ⟨callee, kept, stack, -⟩ := work.stepCall found op
  have waiting := work.below
  cases calls : m.current.frames with
  | nil => rw [calls] at first; cases first
  | cons g frames =>
    rw [calls] at first waiting
    cases first
    obtain ⟨a, -, -, -, -, -, -, -, -, -, rfl, -, -, -, -, -, -, -, height, -⟩ := waiting.called
    rw [stack, List.tail_cons, List.length_append, height]
    omega

end Machine

theorem Machine.Fit.enters {P : Whole} {K : List Caller} {m down : Machine} {i : Instr}
    {c : Closure} {source : Option Nat} {rest : List Cell} {fuel : Nat} (fit : m.Fit P K)
    (found : m.current.instr? = some i) (op : i.opcode = .call)
    (stack : m.current.stack = ⟨.function c, source⟩ :: rest) (reuses : m.current.reuses P.setup c)
    (first : m.FirstDown P.setup m.height fuel down) :
    down.current.routine = c.body ∧ down.current.ip = 0 := by
  rw [fit.height] at first
  obtain ⟨main, points, p, above, below, work⟩ := fit
  obtain ⟨callee, kept, top, serves⟩ := work.stepCall found op
  cases stack.symm.trans top
  have takes : m.current.takesFor P.setup (.function c) = some c.body := if_pos reuses
  cases Machine.servedDown serves first with
  | back stays => cases takes.symm.trans stays
  | replaced body start _ _ => exact ⟨Option.some.inj (body.symm.trans takes), start⟩

end Quill
