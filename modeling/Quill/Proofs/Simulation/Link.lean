import Quill.Proofs.Simulation.Arguments

/-! Machines of two runs that correspond. What differs between the runs is given by a link: the
code, where in it they stand, how calls are framed, and what of a failure must agree. -/
namespace Quill

structure Link where
  left : Setup
  right : Setup
  routine : Routine → Routine → Prop
  -- Where both may go on from.
  position : Routine → Routine → Nat → Nat → Prop
  frames : List Frame → List Frame → Prop
  -- What the run on the right finds when it calls a function: the stack below the function, and the
  -- calls it is in.
  ready : List Cell → List Frame → Prop
  source : Option Nat → Option Nat → Prop
  report : Diagnostic → Diagnostic → Prop
  calls : List String → List String → Prop
  -- Faults that only one of the runs may end with.
  excused : Fault → Prop
  limits : left.limits = right.limits
  broken : left.broken = right.broken
  framesNil : frames [] []
  start {r s : Routine} : routine r s → position r s 0 0
  sourceNone : source none none
  sourceOr {a b c d : Option Nat} : source a b → source c d → source (a.or c) (b.or d)
  reported {a b : Option Nat} (fault : Fault) : source a b →
    report (fault.diagnostic (left.spanOf a)) (fault.diagnostic (right.spanOf b))
  callsNil : calls [] []
  callsAppend {a b c d : List String} : calls a b → calls c d → calls (a ++ c) (b ++ d)
  callsOf {l l' : Level} : frames l.frames l'.frames →
    calls (l.calls left.spanOf) (l'.calls right.spanOf)

section
variable (L : Link)

structure Cell.Alike (c d : Cell) : Prop where
  value : c.value.Alike L.routine d.value
  source : L.source c.source d.source

abbrev StacksAlike : List Cell → List Cell → Prop := List.Forall₂ (Cell.Alike L)

structure Level.Alike (l l' : Level) : Prop where
  stack : StacksAlike L l.stack l'.stack
  scope : l.scope = l'.scope
  routine : L.routine l.routine l'.routine
  frames : L.frames l.frames l'.frames
  depth : L.excused (.callDepth L.left.limits.maxCallDepth) ∨ l.depth = l'.depth

def Level.returnsNext (l : Level) : Bool :=
  match l.routine.code[l.ip + 1]? with
  | some next => next.opcode = .ret
  | none => false

structure Level.Aligned (l l' : Level) : Prop where
  next : L.position l.routine l'.routine (l.ip + 1) (l'.ip + 1)
  source : L.source l.source? l'.source?
  returns : l.returnsNext = l'.returnsNext

inductive ArgumentsAlike (inner inner' : Code → Nat → Routine) :
    (slot : Nat) → List Operand → List Operand → Prop where
  | nil (slot : Nat) : ArgumentsAlike inner inner' slot [] []
  | cons {slot : Nat} {name name' : Operand} {code code' : Code} {rest rest' : List Operand}
      (names : name.text? = name'.text?) (codes : L.routine (inner code slot) (inner' code' slot))
      (tail : ArgumentsAlike inner inner' (slot + 1) rest rest') :
      ArgumentsAlike inner inner' slot (.tuple name (.code code) :: rest)
        (.tuple name' (.code code') :: rest')
  | malformed {slot : Nat} {x x' : Operand} (rest rest' : List Operand)
      (odd : ∀ name code, x ≠ .tuple name (.code code))
      (odd' : ∀ name code, x' ≠ .tuple name (.code code)) :
      ArgumentsAlike inner inner' slot (x :: rest) (x' :: rest')

inductive PropertiesAlike (inner inner' : Code → Nat → Routine) :
    (index : Nat) → List Operand → List Operand → Prop where
  | nil (index : Nat) : PropertiesAlike inner inner' index [] []
  | cons {index : Nat} {key key' value value' : Code} {rest rest' : List Operand}
      (keys : L.routine (inner key (2 * index)) (inner' key' (2 * index)))
      (values : L.routine (inner value (2 * index + 1)) (inner' value' (2 * index + 1)))
      (tail : PropertiesAlike inner inner' (index + 1) rest rest') :
      PropertiesAlike inner inner' index (.tuple (.code key) (.code value) :: rest)
        (.tuple (.code key') (.code value') :: rest')
  | malformed {index : Nat} {x x' : Operand} (rest rest' : List Operand)
      (odd : ∀ key value, x ≠ .tuple (.code key) (.code value))
      (odd' : ∀ key value, x' ≠ .tuple (.code key) (.code value)) :
      PropertiesAlike inner inner' index (x :: rest) (x' :: rest')

inductive Pending.Alike (inner inner' : Code → Nat → Routine) (stack : List Cell)
    (frames : List Frame) : Pending → Pending → Prop where
  | argument {done done' : List Argument} (name : Option String) {rest rest' : List Operand}
      (ready : L.ready stack.tail frames)
      (given : List.Forall₂ (Argument.Alike L.routine) done done')
      (left : ArgumentsAlike L inner inner' (done.length + 1) rest rest') :
      Alike inner inner' stack frames (.argument done name rest) (.argument done' name rest')
  | default {closure closure' : Closure} (scope : Nat) (name : String)
      {rest rest' : List (ClosureParam × Option Value)} (ready : L.ready stack frames)
      (called : closure.Alike L.routine closure') (left : List.Forall₂ (SlotAlike L.routine) rest rest') :
      Alike inner inner' stack frames (.default closure scope name rest) (.default closure' scope name rest')
  | objectKey (index : Nat) {entries entries' : List Entry} {value value' : Code}
      {rest rest' : List Operand} (given : EntriesAlike L.routine entries entries')
      (code : L.routine (inner value (2 * index + 1)) (inner' value' (2 * index + 1)))
      (left : PropertiesAlike L inner inner' (index + 1) rest rest') :
      Alike inner inner' stack frames (.objectKey index entries value rest)
        (.objectKey index entries' value' rest')
  | objectValue (index : Nat) (key : PropertyName) {entries entries' : List Entry}
      {rest rest' : List Operand} (given : EntriesAlike L.routine entries entries')
      (left : PropertiesAlike L inner inner' (index + 1) rest rest') :
      Alike inner inner' stack frames (.objectValue index entries key rest)
        (.objectValue index entries' key rest')

structure Waiting.Alike (w w' : Waiting) : Prop where
  level : w.level.Alike L w'.level
  aligned : w.level.Aligned L w'.level
  pending : w.pending.Alike L w.level.inner w'.level.inner w'.level.stack w'.level.frames w'.pending

structure Machine.Alike (m m' : Machine) : Prop where
  scopes : m.scopes.Alike L.routine m'.scopes
  output : m.output = m'.output
  diagnostics : List.Forall₂ L.report m.diagnostics m'.diagnostics
  nextId : m.nextId = m'.nextId
  current : m.current.Alike L m'.current
  outer : List.Forall₂ (Waiting.Alike L) m.outer m'.outer

structure Machine.Busy (m m' : Machine) : Prop extends Machine.Alike L m m' where
  aligned : m.current.Aligned L m'.current

inductive Transition.Alike : Transition → Transition → Prop where
  | running {m m' : Machine} (alike : m.Alike L m')
      (position : L.position m.current.routine m'.current.routine m.current.ip m'.current.ip) :
      Transition.Alike (.running m) (.running m')
  | ended {m m' : Machine} (alike : m.Alike L m') : Transition.Alike (.ended m) (.ended m')
  | failed {m m' : Machine} (fault : Fault) {calls calls' : List String} {node node' : Option Nat}
      (alike : m.Alike L m') (callStack : L.calls calls calls') (blamed : L.source node node') :
      Transition.Alike (.failed m ⟨fault, calls, node⟩) (.failed m' ⟨fault, calls', node'⟩)
  | leftExcused {m : Machine} {e : RunError} (t : Transition) (excused : L.excused e.fault) :
      Transition.Alike (.failed m e) t
  | rightExcused {m : Machine} {e : RunError} (t : Transition) (excused : L.excused e.fault) :
      Transition.Alike t (.failed m e)

end

end Quill
