import Mathlib.Data.String.Basic
import Quill.Proofs.Limits.Steps
import Quill.Proofs.Simulation.Frames
import Quill.Proofs.Sources.Shapes
import Quill.Session

/-! Sources decide nothing but what is blamed: code runs alike whatever the sources of its
instructions are, and so does the code that is read back from its binary form, which has none. -/
namespace Quill

structure Routine.SameUnsourced (r s : Routine) : Prop where
  path : r.place.path = s.place.path
  code : Quill.SameUnsourced r.code s.code

/-- Code of one unit that stands for the code at the same place in another, or code of a further unit
that is the same in both runs. -/
structure Routine.Unsourced (unit other : Nat) (r s : Routine) : Prop extends r.SameUnsourced s where
  units : r.place.unit ∉ [unit, other] ∧ r.place.unit = s.place.unit ∨
    r.place.unit = unit ∧ s.place.unit = other

structure Diagnostic.SameReport (d e : Diagnostic) : Prop where
  code : d.code = e.code
  message : d.message = e.message
  severity : d.severity = e.severity

theorem callsCounted {R : Routine → Routine → Prop} {P : Routine → Routine → Nat → Nat → Prop}
    {S : Option Nat → Option Nat → Prop} {l l' : Level} (spanOf spanOf' : Option Nat → Span)
    (alike : List.Forall₂ (Frame.Alike R P S) l.frames l'.frames) :
    (l.calls spanOf).length = (l'.calls spanOf').length := by
  simp only [Level.calls, List.length_map, List.length_reverse, alike.length_eq]

def Setup.withSpans (setup : Setup) (spans : List Span) : Setup := { setup with spans := spans }

theorem Setup.limitsKept (setup : Setup) (spans : List Span) :
    setup.limits = (setup.withSpans spans).limits := rfl

theorem Setup.outputKept (setup : Setup) (spans : List Span) :
    setup.broken = (setup.withSpans spans).broken := rfl

/-- Runs that are at the same instruction, whatever it is blamed on. -/
def unsourcedLink (R : Routine → Routine → Prop) (setup : Setup) (spans : List Span) : Link where
  left := setup
  right := setup.withSpans spans
  routine := R
  position _ _ ip ip' := ip = ip'
  frames := List.Forall₂ (Frame.Alike R (fun _ _ ip ip' => ip = ip') fun _ _ => True)
  ready _ _ := True
  source _ _ := True
  report := Diagnostic.SameReport
  calls calls calls' := calls.length = calls'.length
  excused _ := False
  limits := setup.limitsKept spans
  broken := setup.outputKept spans
  framesNil := .nil
  start _ := rfl
  sourceNone := trivial
  sourceOr _ _ := trivial
  reported _ _ := ⟨rfl, rfl, rfl⟩
  callsNil := rfl
  callsAppend first second := by rw [List.length_append, List.length_append, first, second]
  callsOf alike := callsCounted _ _ alike

theorem unsourcedLockstep {R : Routine → Routine → Prop} {setup : Setup} {spans : List Span}
    (places : ∀ {r s r' s'}, R r s → R r' s' → (r.place = r'.place ↔ s.place = s'.place)) :
    (unsourcedLink R setup spans).Lockstep where
  frames := rfl
  reuses := rfl
  places := places

theorem unsourcedInstr {R : Routine → Routine → Prop} (setup : Setup) (spans : List Span)
    {l l' : Level} {i i' : Instr} (scope : l.scope = l'.scope) (same : i.unsourced = i'.unsourced)
    (inner : ∀ slot c d, SameUnsourced c d → R (l.inner c slot) (l'.inner d slot))
    (targets : ∀ n, i.operand.offset? = some n →
      jumpTarget? l.ip n l.routine.code.length = jumpTarget? l'.ip n l'.routine.code.length) :
    i.Alike (unsourcedLink R setup spans) l l' i' := by
  have opcode : i.opcode = i'.opcode := by
    rw [← i.opcodeUnsourced, same, i'.opcodeUnsourced]
  have operand : i.operand.unsourced = i'.operand.unsourced := by
    rw [← i.operandUnsourced, same, i'.operandUnsourced]
  have offset : i.operand.offset? = i'.operand.offset? := by
    rw [← i.operand.offsetUnsourced, operand, i'.operand.offsetUnsourced]
  refine instrShaped opcode scope (fun _ => Operand.unsourcedShaped operand)
    (fun slot c d _ _ same => inner slot c d same) fun _ => ?_
  cases given : i.operand.offset? with
  | none => exact .none given (offset ▸ given)
  | some n =>
    have target := targets n given
    cases found : jumpTarget? l.ip n l.routine.code.length with
    | none => exact .out given (offset ▸ given) found (target ▸ found)
    | some t => exact .inside given (offset ▸ given) found (target ▸ found) rfl

variable {setup : Setup} {spans : List Span} {unit other : Nat}

theorem Routine.Unsourced.unitsMatch {r s r' s' : Routine} (one : r.Unsourced unit other s)
    (another : r'.Unsourced unit other s') :
    r.place.unit = r'.place.unit ↔ s.place.unit = s'.place.unit := by
  rcases one.units with ⟨further, same⟩ | ⟨here, there⟩
  · rcases another.units with ⟨-, same'⟩ | ⟨here', there'⟩
    · rw [same, same']
    · refine iff_of_false (fun equal => ?_) fun equal => ?_
      · simp [equal, here'] at further
      · simp [same, equal, there'] at further
  · rcases another.units with ⟨further, same'⟩ | ⟨here', there'⟩
    · refine iff_of_false (fun equal => ?_) fun equal => ?_
      · simp [← equal, here] at further
      · simp [same', ← equal, there] at further
    · exact iff_of_true (here.trans here'.symm) (there.trans there'.symm)

theorem Routine.Unsourced.places {r s r' s' : Routine} (one : r.Unsourced unit other s)
    (another : r'.Unsourced unit other s') : r.place = r'.place ↔ s.place = s'.place := by
  rw [Place.ext_iff, Place.ext_iff, one.unitsMatch another, one.path, another.path]

section
variable (R : Routine → Routine → Prop) (setup : Setup) (spans : List Span)

/-- Levels that read what corresponds: the current instruction, and whether a return is next. -/
structure Level.ReadsAlike (l l' : Level) : Prop where
  here : Option.Rel (fun i j => i.Alike (unsourcedLink R setup spans) l l' j) l.instr? l'.instr?
  returns : l.returnsNext = l'.returnsNext

structure Machine.Unsourced (m m' : Machine) : Prop where
  alike : m.Alike (unsourcedLink R setup spans) m'
  ip : m.current.ip = m'.current.ip
  steps : m.steps = m'.steps

end

namespace Machine.Unsourced

variable {R : Routine → Routine → Prop} {m m' : Machine}

theorem busy (related : m.Unsourced R setup spans m')
    (reads : m.current.ReadsAlike R setup spans m'.current) :
    Machine.Busy (unsourcedLink R setup spans) { m with steps := m.steps + 1 }
      { m' with steps := m'.steps + 1 } :=
  { related.alike with aligned := ⟨congrArg (· + 1) related.ip, trivial, reads.returns⟩ }

theorem overLimit (related : m.Unsourced R setup spans m') :
    { m with steps := m.steps + 1 }.overLimit? setup.limits =
      { m' with steps := m'.steps + 1 }.overLimit? (setup.withSpans spans).limits := by
  rw [← setup.limitsKept]
  unfold overLimit? overLimit?.overStack
  simp only [related.steps, related.alike.current.stack.length_eq]

theorem executes (related : m.Unsourced R setup spans m')
    (reads : m.current.ReadsAlike R setup spans m'.current) :
    m.executes setup = m'.executes (setup.withSpans spans) := by
  unfold Machine.executes
  rw [related.overLimit]
  congr 1
  rcases relatedCases reads.here with ⟨none, none'⟩ | ⟨i, i', found, found', -⟩
  · rw [none, none']
  · rw [found, found']
    rfl

theorem step (related : m.Unsourced R setup spans m')
    (reads : m.current.ReadsAlike R setup spans m'.current)
    (lockstep : (unsourcedLink R setup spans).Lockstep) :
    Transition.Alike (unsourcedLink R setup spans) (m.step setup)
      (m'.step (setup.withSpans spans)) := by
  rcases relatedCases reads.here with ⟨none, none'⟩ | ⟨i, i', found, found', alike⟩
  · exact related.alike.lockstepEnd lockstep none none'
  · have busy := related.busy reads
    have limit := related.overLimit
    cases beyond : { m with steps := m.steps + 1 }.overLimit? setup.limits with
    | some fault =>
      rw [stepBeyond found beyond, stepBeyond found' (limit ▸ beyond)]
      exact busy.fail fault
    | none =>
      rw [stepWithin found beyond, stepWithin found' (limit ▸ beyond)]
      by_cases returns : i.opcode = .ret
      · rw [execReturn returns, execReturn (alike.opcode ▸ returns)]
        exact busy.returnFrom lockstep
      · exact busy.exec (lockstepInvokes lockstep) alike (fun _ => trivial) returns

theorem next (related : m.Unsourced R setup spans m')
    (reads : m.current.ReadsAlike R setup spans m'.current) {n n' : Machine}
    (alike : n.Alike (unsourcedLink R setup spans) n') (ip : n.current.ip = n'.current.ip)
    (stepped : m.step setup = .running n)
    (stepped' : m'.step (setup.withSpans spans) = .running n') : n.Unsourced R setup spans n' := by
  refine ⟨alike, ip, ?_⟩
  rw [stepCounted stepped, stepCounted stepped', related.executes reads, related.steps]

end Machine.Unsourced

-- A division by zero, which is blamed on the divisor.
def divisionByZero : Code :=
  [.mk .push (.long 1) (some 4), .mk .push (.long 0) (some 7), .mk .div .null (some 9)]

end Quill
