import Quill.Intrinsic.Call
import Quill.Machine

/-! Calls and object literals: the instructions that want values from further levels. Arguments are
evaluated in order, then matched to parameters, then the defaults of those without one are
evaluated, in the scope that the body will run in. -/
namespace Quill

/-- Puts arguments into the slots of the parameters: those without a name in order, from `position`
on, those with a name where it says. An argument to the same parameter replaces an earlier one. -/
def placeArguments (params : List String) (position : Nat) (slots : List (Option Value)) :
    List Argument → Except Fault (List (Option Value))
  | [] => .ok slots
  | a :: rest =>
    let place (index next : Nat) :=
      if index < slots.length then
        placeArguments params next (slots.set index (some a.value)) rest
      else .error (.tooManyArguments params.length (index + 1))
    match a.name with
    | none => place position (position + 1)
    | some name =>
      match params.findIdx? (· = name) with
      | some index => place index position
      | none => .error (.unknownArgument name)

def argumentSlots (params : List String) (args : List Argument) :
    Except Fault (List (Option Value)) :=
  placeArguments params 0 (List.replicate params.length none) args

def requireAll : List (String × Option Value) → Except Fault (List Value)
  | [] => .ok []
  | (_, some v) :: rest => (requireAll rest).map (v :: ·)
  | (name, none) :: _ => .error (.missingArgument name)

namespace Machine

/-- Whether the call that runs is one of the same closure, which is about to return what the current
instruction gives. -/
def isTailCall (l : Level) (closure : Closure) : Bool :=
  match l.frames with
  | [] => false
  | f :: _ =>
    f.callee.body.place = closure.body.place && f.callee.scope = closure.scope &&
      match l.routine.code[l.ip + 1]? with
      | some next => next.opcode = .ret
      | none => false

def enter (m : Machine) (closure : Closure) (scope : Nat) (frames : List Frame) : Transition :=
  let l := m.current
  .running
    { m with current :=
      { l with
        scope := scope, routine := closure.body, ip := 0, frames := frames
        peak := max l.peak frames.length } }

def pushFrame (setup : Setup) (m : Machine) (closure : Closure) (scope : Nat) : Transition :=
  let l := m.current
  if setup.limits.maxCallDepth < l.depth + 1 then
    m.fail setup (.callDepth setup.limits.maxCallDepth) none
  else
    m.enter closure scope
      (⟨l.routine, l.ip + 1, l.scope, l.stack.length, l.source?, closure⟩ :: l.frames)

def invoke (setup : Setup) (m : Machine) (closure : Closure) (scope : Nat) : Transition :=
  let l := m.current
  match l.frames with
  | f :: outer =>
    if setup.reusesFrames && isTailCall l closure then
      m.enter closure scope ({ f with callSite := l.source? } :: outer)
    else m.pushFrame setup closure scope
  | [] => m.pushFrame setup closure scope

def fillParams (setup : Setup) (m : Machine) (closure : Closure) (scope : Nat) :
    List (ClosureParam × Option Value) → Transition
  | [] => m.invoke setup closure scope
  | (p, some v) :: rest =>
    fillParams setup { m with scopes := m.scopes.define scope p.name v } closure scope rest
  | (p, none) :: rest =>
    match p.default with
    | some routine => m.evaluate setup routine scope (.default closure scope p.name rest)
    | none => m.fail setup (.missingArgument p.name) none

def callClosure (setup : Setup) (m : Machine) (closure : Closure) (args : List Argument) :
    Transition :=
  let (scope, scopes) := m.scopes.child closure.scope
  let m := { m with scopes := scopes }
  match argumentSlots (closure.params.map (·.name)) args with
  | .ok slots => m.fillParams setup closure scope (closure.params.zip slots)
  | .error fault => m.fail setup fault none

def callIntrinsic (setup : Setup) (m : Machine) (i : Intrinsic) (args : List Argument) :
    Transition :=
  let result := do
    let slots ← argumentSlots i.paramNames args
    i.call setup.broken (← requireAll (i.paramNames.zip slots))
  match result with
  | .ok r => { m with output := m.output ++ r.printed }.push r.value m.current.stack
  | .error fault => m.fail setup fault none

def callTop (setup : Setup) (m : Machine) (args : List Argument) : Transition :=
  match m.current.stack with
  | [] => m.underflow setup .call
  | callee :: rest =>
    let m := m.withStack rest
    match callee.value with
    | .function closure => m.callClosure setup closure args
    | .intrinsic i => m.callIntrinsic setup i args
    | other => m.fail setup (.notCallable other.typeName) none

def nextArgument (setup : Setup) (m : Machine) (done : List Argument) : List Operand → Transition
  | [] => m.callTop setup done
  | .tuple name (.code code) :: rest =>
    m.evaluate setup (m.current.inner code done.length) m.current.scope
      (.argument done name.text? rest)
  | _ :: _ => m.skip setup .call "(name, argument)"

def nextProperty (setup : Setup) (m : Machine) (index : Nat) (entries : List Entry) :
    List Operand → Transition
  | [] => { m with nextId := m.nextId + 1 }.push (.object m.nextId entries) m.current.stack
  | .tuple (.code key) (.code value) :: rest =>
    m.evaluate setup (m.current.inner key (2 * index)) m.current.scope
      (.objectKey index entries value rest)
  | _ :: _ => m.skip setup .pushObject "(key, value)"

def badKey (key : Value) : Fault :=
  .typeMismatch ("object key must be string or int, got " ++ key.typeName)

def resume (setup : Setup) (m : Machine) (value : Value) : Pending → Transition
  | .argument done name rest => m.nextArgument setup (done ++ [⟨name, value⟩]) rest
  | .default closure scope name rest =>
    { m with scopes := m.scopes.define scope name value }.fillParams setup closure scope rest
  | .objectKey index entries code rest =>
    match value.key? with
    | some key =>
      m.evaluate setup (m.current.inner code (2 * index + 1)) m.current.scope
        (.objectValue index entries key rest)
    | none => m.fail setup (badKey value) none
  | .objectValue index entries key rest =>
    m.nextProperty setup (index + 1) (setEntry entries key value) rest

def endLevel (setup : Setup) (m : Machine) : Transition :=
  match m.outer with
  | [] => .ended m
  | w :: outer =>
    { m with current := peakBelow w.level m.current, outer := outer }.resume setup
      (m.current.top?.getD .none) w.pending

def returnFrom (m : Machine) : Transition :=
  let l := m.current
  match l.frames with
  | [] => m.advance l.stack
  | f :: frames =>
    let below := l.stack.tail.drop (l.stack.tail.length - f.stackBase)
    .running
      { m with current :=
        { l with
          stack := l.stack.headD ⟨.none, none⟩ :: below
          scope := f.scope, routine := f.routine, ip := f.returnIp, frames := frames } }

end Machine

end Quill
