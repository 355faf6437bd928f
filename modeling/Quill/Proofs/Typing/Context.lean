import Quill.Proofs.Simulation.Frames
import Quill.Proofs.Typing.Programs
import Quill.Proofs.Typing.Sound

/-! Machines whose code has a known stack. Below the values that the current code has put there, the
stack is that of whoever waits for a result: callers on the same level, and levels that wait. -/
namespace Quill

structure Whole where
  setup : Setup
  code : Code
  final : Point

def Whole.ending (P : Whole) (main : Bool) : Option Point := if main then some P.final else none

structure Caller where
  -- What is left of the stack below the value.
  stack : List Cell
  scope : Nat
  routine : Routine
  ip : Nat
  frames : List Frame
  outer : List Waiting
  -- The body of the function that it calls, if that call takes its place.
  tail : Option Routine

abbrev AllHold : List Known → List Cell → Prop := List.Forall₂ fun k c => k.Holds c.value

def Level.reuses (setup : Setup) (l : Level) (c : Closure) : Bool :=
  setup.reusesFrames && Machine.isTailCall l c

def Level.takes (setup : Setup) (l : Level) (c : Closure) : Option Routine :=
  if l.reuses setup c then some c.body else none

def Level.takesFor (setup : Setup) (l : Level) : Value → Option Routine
  | .function c => l.takes setup c
  | _ => none

inductive Pending.Waits (setup : Setup) (l : Level) (tail : Option Routine) :
    List Cell → Pending → Prop where
  | argument {callee : Cell} {done : List Argument} {name : Option String} {rest : List Operand}
      (given : List.Forall₂ (Argument.Alike Nested) done done)
      (left : ∀ x ∈ rest, ArgumentTyped x) (takes : tail = l.takesFor setup callee.value) :
      Waits setup l tail [callee] (.argument done name rest)
  | default {c : Closure} {scope : Nat} {name : String} {rest : List (ClosureParam × Option Value)}
      (called : c.Sound) (left : List.Forall₂ (SlotAlike Nested) rest rest)
      (takes : tail = l.takes setup c) : Waits setup l tail [] (.default c scope name rest)
  | objectKey {index : Nat} {entries : List Entry} {value : Code} {rest : List Operand}
      (given : EntriesAlike Nested entries entries) (typed : Typed none value)
      (left : ∀ x ∈ rest, PropertyTyped x) (stays : tail = none) :
      Waits setup l tail [] (.objectKey index entries value rest)
  | objectValue {index : Nat} {entries : List Entry} {key : PropertyName} {rest : List Operand}
      (given : EntriesAlike Nested entries entries) (left : ∀ x ∈ rest, PropertyTyped x)
      (stays : tail = none) : Waits setup l tail [] (.objectValue index entries key rest)

section
variable (P : Whole) (h : ScopeHeap)

structure Stands (main : Bool) (routine : Routine) (points : Nat → Point) (scope blocks : Nat) :
    Prop where
  typing : Typing (P.ending main) routine.code points
  whole : main = true → routine.code = P.code
  within : main = true → h.Within scope blocks

structure Caller.Waits (a : Caller) (main : Bool) (points : Nat → Point) (above below : List Cell)
    (s : List Known) (b : Nat) : Prop where
  stands : Stands P h main a.routine points a.scope b
  next : points (a.ip + 1) = ⟨.value :: s, b⟩
  stack : a.stack = above ++ below
  holds : AllHold s above

/-- Who waits for the code that runs, innermost first, with the stack below what it has put there,
the calls that it is in on its level, and the levels that wait. -/
inductive Below : List Caller → (main : Bool) → List Cell → List Frame → List Waiting → Prop where
  | program {below : List Cell} (clean : NeverReturns P.code → below = []) :
      Below [] true below [] []
  | call {a : Caller} {K : List Caller} {f : Frame} {main : Bool} {points : Nat → Point}
      {above below : List Cell} {s : List Known} {b : Nat}
      (waits : a.Waits P h main points above below s b) (rest : Below K main below a.frames a.outer)
      (routine : f.routine = a.routine) (returnIp : f.returnIp = a.ip + 1)
      (scope : f.scope = a.scope) (height : f.stackBase = a.stack.length) (stays : a.tail = none) :
      Below (a :: K) false a.stack (f :: a.frames) a.outer
  | level {a : Caller} {K : List Caller} {w : Waiting} {main : Bool} {points : Nat → Point}
      {above below taken junk : List Cell} {s : List Known} {b : Nat}
      (waits : a.Waits P h main points above below s b) (rest : Below K main below a.frames a.outer)
      (routine : w.level.routine = a.routine) (ip : w.level.ip = a.ip)
      (scope : w.level.scope = a.scope) (frames : w.level.frames = a.frames)
      (stack : w.level.stack = taken ++ a.stack) (cells : CellsSound w.level.stack)
      (pending : w.pending.Waits P.setup w.level a.tail taken) :
      Below (a :: K) false junk [] (w :: a.outer)

end

section
variable (P : Whole)

structure Machine.Working (m : Machine) (K : List Caller) (main : Bool) (points : Nat → Point)
    (p : Point) (above below : List Cell) : Prop where
  stands : Stands P m.scopes main m.current.routine points m.current.scope p.blocks
  here : points m.current.ip = p
  stack : m.current.stack = above ++ below
  holds : AllHold p.stack above
  below : Below P m.scopes K main below m.current.frames m.outer
  cells : CellsSound m.current.stack
  scopes : m.scopes.Sound
  clean : m.diagnostics = []

def Machine.Fit (m : Machine) (K : List Caller) : Prop :=
  ∃ main points p above below, m.Working P K main points p above below

structure Machine.Serving (m : Machine) (a : Caller) (K : List Caller) (main : Bool)
    (points : Nat → Point) (above below : List Cell) (s : List Known) (b : Nat) : Prop where
  waits : a.Waits P m.scopes main points above below s b
  rest : Below P m.scopes K main below a.frames a.outer
  routine : m.current.routine = a.routine
  ip : m.current.ip = a.ip
  scope : m.current.scope = a.scope
  frames : m.current.frames = a.frames
  outer : m.outer = a.outer
  scopes : m.scopes.Sound
  clean : m.diagnostics = []

end

structure Machine.Back (m : Machine) (a : Caller) : Prop where
  result : ∃ c, m.current.stack = c :: a.stack
  scope : m.current.scope = a.scope
  routine : m.current.routine = a.routine
  ip : m.current.ip = a.ip + 1
  frames : m.current.frames = a.frames
  outer : m.outer = a.outer

inductive Machine.Done (m : Machine) (a : Caller) : Prop where
  | back (stays : a.tail = none) (back : m.Back a)
  | replaced (body : a.tail = some m.current.routine) (start : m.current.ip = 0)
      (calls : m.current.frames.length = a.frames.length) (outer : m.outer = a.outer)

inductive Moves (m : Machine) : List Caller → List Caller → Prop where
  | stays (K : List Caller) : Moves m K K
  | starts (a : Caller) (K : List Caller) : Moves m K (a :: K)
  | ends (a : Caller) (K : List Caller) (done : m.Done a) : Moves m (a :: K) K

section
variable (P : Whole)

structure Machine.Ends (m : Machine) : Prop where
  outer : m.outer = []
  frames : m.current.frames = []
  scope : m.scopes.Within m.current.scope P.final.blocks
  height : NeverReturns P.code → m.current.stack.length = P.final.stack.length
  clean : m.diagnostics = []

structure FailsWell (m : Machine) (e : RunError) : Prop where
  fault : ¬ e.fault.Malformed
  reported : ∃ span, m.diagnostics = [e.fault.diagnostic span]

inductive Transition.Fits (K : List Caller) : Transition → Prop where
  | running {m : Machine} {K' : List Caller} (fit : m.Fit P K') (moves : Moves m K K') :
      Fits K (.running m)
  | ended {m : Machine} (ends : m.Ends P) : Fits K (.ended m)
  | failed {m : Machine} {e : RunError} (well : FailsWell m e) : Fits K (.failed m e)

inductive Transition.Serves (a : Caller) (K : List Caller) : Transition → Prop where
  | waits {m : Machine} (fit : m.Fit P (a :: K)) : Serves a K (.running m)
  | done {m : Machine} (fit : m.Fit P K) (done : m.Done a) : Serves a K (.running m)
  | failed {m : Machine} {e : RunError} (well : FailsWell m e) : Serves a K (.failed m e)

end

variable {P : Whole} {K : List Caller} {m : Machine} {main : Bool} {points : Nat → Point}
  {p : Point} {a : Caller} {above below : List Cell} {s : List Known} {b : Nat}

theorem Stands.grow {h k : ScopeHeap} {routine : Routine} {scope blocks : Nat} (grows : h.Grows k)
    (stands : Stands P h main routine points scope blocks) :
    Stands P k main routine points scope blocks :=
  ⟨stands.typing, stands.whole, fun same => (stands.within same).grow grows⟩

theorem Caller.Waits.grow {h k : ScopeHeap} (grows : h.Grows k)
    (waits : a.Waits P h main points above below s b) : a.Waits P k main points above below s b :=
  ⟨waits.stands.grow grows, waits.next, waits.stack, waits.holds⟩

theorem Below.grow {h k : ScopeHeap} (grows : h.Grows k) {frames : List Frame}
    {outer : List Waiting} (rest : Below P h K main below frames outer) :
    Below P k K main below frames outer := by
  induction rest with
  | program clean => exact .program clean
  | call waits _ routine returnIp scope height stays ih =>
    exact .call (waits.grow grows) ih routine returnIp scope height stays
  | level waits _ routine ip scope frames stack cells pending ih =>
    exact .level (waits.grow grows) ih routine ip scope frames stack cells pending

theorem Transition.Serves.offered {t : Transition} {K' : List Caller} (serves : t.Serves P a K)
    (offered : K' = K ∨ K' = a :: K) : t.Fits P K' := by
  cases serves with
  | waits fit =>
    rcases offered with rfl | rfl
    · exact .running fit (.starts a K')
    · exact .running fit (.stays _)
  | done fit done =>
    rcases offered with rfl | rfl
    · exact .running fit (.stays _)
    · exact .running fit (.ends a K done)
  | failed well => exact .failed well

theorem CellsSound.append {stack rest : List Cell} (first : CellsSound stack)
    (second : CellsSound rest) : CellsSound (stack ++ rest) :=
  List.forall_mem_append.mpr ⟨first, second⟩

theorem CellsSound.rest {stack rest : List Cell} (cells : CellsSound (stack ++ rest)) :
    CellsSound rest :=
  (List.forall_mem_append.mp cells).2

theorem failsWell (setup : Setup) {fault : Fault} (node : Option Nat) (clean : m.diagnostics = [])
    (well : ¬ fault.Malformed) :
    ∃ last e, m.fail setup fault node = .failed last e ∧ FailsWell last e :=
  ⟨_, _, rfl, well, _, congrArg (· ++ [_]) clean⟩

namespace Machine.Working

theorem cellsBelow (work : m.Working P K main points p above below) : CellsSound below := by
  have cells := work.cells
  rw [work.stack] at cells
  exact cells.rest

theorem fails {fault : Fault} (setup : Setup) (node : Option Nat)
    (work : m.Working P K main points p above below) (well : ¬ fault.Malformed) (stack : List Cell) :
    ((m.withStack stack).fail setup fault node).Fits P K := by
  obtain ⟨last, e, same, well⟩ := failsWell (m := m.withStack stack) setup node work.clean well
  rw [same]
  exact .failed well

theorem goes {q : Point} {above' : List Cell} (work : m.Working P K main points p above below)
    (next : points (m.current.ip + 1) = q) (blocks : q.blocks = p.blocks)
    (holds : AllHold q.stack above') (cells : CellsSound above') :
    (m.advance (above' ++ below)).Fits P K := by
  refine .running ⟨main, points, q, above', below, ?_⟩ (.stays K)
  exact
    { stands := blocks ▸ work.stands
      here := next
      stack := rfl
      holds := holds
      below := work.below
      cells := cells.append work.cellsBelow
      scopes := work.scopes
      clean := work.clean }

theorem pushes {above' : List Cell} {v : Value} {k : Known}
    (work : m.Working P K main points p above below)
    (next : points (m.current.ip + 1) = ⟨k :: s, p.blocks⟩) (holds : AllHold s above')
    (cells : CellsSound above') (known : k.Holds v) (sound : v.Sound) :
    (m.push v (above' ++ below)).Fits P K := by
  refine work.goes next rfl (.cons (a := k) (b := ⟨v, m.current.source?⟩) known holds) ?_
  exact List.forall_mem_cons.mpr ⟨sound, cells⟩

theorem jumps {q : Point} {above' : List Cell} {target : Nat}
    (work : m.Working P K main points p above below) (there : points target = q)
    (blocks : q.blocks = p.blocks) (holds : AllHold q.stack above') (cells : CellsSound above') :
    (m.jump target (above' ++ below)).Fits P K := by
  refine .running ⟨main, points, q, above', below, ?_⟩ (.stays K)
  exact
    { stands := blocks ▸ work.stands
      here := there
      stack := rfl
      holds := holds
      below := work.below
      cells := cells.append work.cellsBelow
      scopes := work.scopes
      clean := work.clean }

theorem withScopes {h : ScopeHeap} (work : m.Working P K main points p above below)
    (grows : m.scopes.Grows h) (sound : h.Sound) :
    Machine.Working P { m with scopes := h } K main points p above below :=
  { work with
    stands := work.stands.grow grows
    below := work.below.grow grows
    scopes := sound }

end Machine.Working

end Quill
