import Quill.Fault
import Quill.ScopeHeap

/-! The state of the stack machine. Code runs on levels: functions that are called run on the level
of their caller, but the codes of arguments, defaults and object properties run on levels of their
own, each with its own stack, while the level that wants the value waits. -/
namespace Quill

structure Limits where
  maxCallDepth : Nat
  maxSteps : Option Nat
  maxStackSize : Nat
  deriving DecidableEq, Repr

def Limits.standard : Limits := ⟨1000, none, 10000⟩

structure Setup where
  limits : Limits
  spans : List Span
  -- Why nothing can be printed, if so.
  broken : Option String
  -- Whether a closure that calls itself as its last act stays in its frame.
  reusesFrames : Bool

def Setup.spanOf (s : Setup) (node : Option Nat) : Span :=
  (node.bind fun n => s.spans[n]?).getD .start

structure Cell where
  value : Value
  source : Option Nat

structure Frame where
  routine : Routine
  returnIp : Nat
  scope : Nat
  -- The height of the stack below the result.
  stackBase : Nat
  callSite : Option Nat
  callee : Closure

structure Level where
  -- The top first.
  stack : List Cell
  scope : Nat
  routine : Routine
  ip : Nat
  -- The innermost call first.
  frames : List Frame
  -- The depth of calls that the level was started at.
  baseDepth : Nat
  -- The most calls seen at once, on this level and those above it.
  peak : Nat

namespace Level

def start (routine : Routine) (scope baseDepth : Nat) : Level :=
  ⟨[], scope, routine, 0, [], baseDepth, 0⟩

def depth (l : Level) : Nat := l.baseDepth + l.frames.length

def instr? (l : Level) : Option Instr := l.routine.code[l.ip]?

def source? (l : Level) : Option Nat := l.instr?.bind Instr.source

def inner (l : Level) (code : Code) (slot : Nat) : Routine :=
  ⟨code, l.routine.place.inner l.ip slot⟩

def top? (l : Level) : Option Value := l.stack.head?.map Cell.value

def calls (spanOf : Option Nat → Span) (l : Level) : List String :=
  l.frames.reverse.map fun f => "call at " ++ (spanOf f.callSite).text

end Level

structure Argument where
  name : Option String
  value : Value

inductive Pending where
  -- The value of an argument, behind those in `done`; `rest` are to follow.
  | argument (done : List Argument) (name : Option String) (rest : List Operand)
  -- The value of a parameter that was not given; `rest` are filled next.
  | default (closure : Closure) (scope : Nat) (name : String)
      (rest : List (ClosureParam × Option Value))
  | objectKey (index : Nat) (entries : List Entry) (value : Code) (rest : List Operand)
  | objectValue (index : Nat) (entries : List Entry) (key : PropertyName) (rest : List Operand)

structure Waiting where
  level : Level
  pending : Pending

structure Machine where
  scopes : ScopeHeap
  -- Instructions run so far, on all levels.
  steps : Nat
  output : String
  diagnostics : Diagnostics
  -- The next identity of an object, a function or a unit of code.
  nextId : Nat
  current : Level
  -- The waiting levels, innermost first.
  outer : List Waiting

inductive Transition where
  | running (m : Machine)
  | ended (m : Machine)
  | failed (m : Machine) (e : RunError)

namespace Machine

def withStack (m : Machine) (stack : List Cell) : Machine :=
  { m with current := { m.current with stack := stack } }

def advance (m : Machine) (stack : List Cell) : Transition :=
  .running { m with current := { m.current with stack := stack, ip := m.current.ip + 1 } }

def jump (m : Machine) (target : Nat) (stack : List Cell) : Transition :=
  .running { m with current := { m.current with stack := stack, ip := target } }

def push (m : Machine) (value : Value) (stack : List Cell) : Transition :=
  m.advance (⟨value, m.current.source?⟩ :: stack)

def peakBelow (below above : Level) : Level :=
  { below with peak := max below.peak (below.frames.length + above.peak) }

def outermost (l : Level) : List Waiting → Level
  | [] => l
  | w :: outer => outermost (peakBelow w.level l) outer

def fail (setup : Setup) (m : Machine) (fault : Fault) (node : Option Nat) : Transition :=
  let levels := m.current :: m.outer.map Waiting.level
  let blamed := node.or (levels.findSome? Level.source?)
  let calls := levels.reverse.flatMap (Level.calls setup.spanOf)
  let report := fault.diagnostic (setup.spanOf blamed)
  .failed
    { m with
      current := outermost m.current m.outer, outer := [],
      diagnostics := m.diagnostics ++ [report] }
    ⟨fault, calls, blamed⟩

def skip (setup : Setup) (m : Machine) (op : Opcode) (expected : String) : Transition :=
  let fault := Fault.malformedOperand op expected
  let report := fault.diagnostic (setup.spanOf m.current.source?)
  { m with diagnostics := m.diagnostics ++ [report] }.advance m.current.stack

def underflow (setup : Setup) (m : Machine) (op : Opcode) : Transition :=
  (m.withStack []).fail setup (.stackUnderflow op 1) none

def evaluate (setup : Setup) (m : Machine) (routine : Routine) (scope : Nat) (pending : Pending) :
    Transition :=
  let depth := m.current.depth + 1
  if setup.limits.maxCallDepth < depth then
    m.fail setup (.callDepth setup.limits.maxCallDepth) none
  else
    .running
      { m with
        current := .start routine scope depth
        outer := ⟨m.current, pending⟩ :: m.outer }

end Machine

end Quill
