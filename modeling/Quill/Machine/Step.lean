import Quill.Machine.Call
import Quill.Value.Apply

/-! Steps of the stack machine, one for each instruction and one for each end of code. -/
namespace Quill

def memberOf (object key : Value) : Except Fault Value :=
  match object, key with
  | .object _ entries, key =>
    match key.key? with
    | some k => .ok ((valueAt? entries k).getD .none)
    | none => .error (Machine.badKey key)
  | .str s, .int index =>
    let char := if index < 0 then none else s.toList[index.toInt.toNat]?
    .ok ((char.map Value.char).getD .none)
  | other, _ => .error (.typeMismatch ("cannot read a member of " ++ other.typeName))

def closureParams (l : Level) (index : Nat) : List Operand → Except String (List ClosureParam)
  | [] => .ok []
  | .tuple name default :: rest => do
    let routine := match default with
      | .code code => some (l.inner code (index + 1))
      | _ => none
    match name.text? with
    | some name => return ⟨name, routine⟩ :: (← closureParams l (index + 1) rest)
    | none => .error "a parameter name"
  | _ :: _ => .error "(parameters, body)"

def closureOf (l : Level) (id : Nat) : Operand → Except String Closure
  | .tuple (.list params) (.code body) => do
    return ⟨id, ← closureParams l 0 params, l.inner body 0, l.scope⟩
  | _ => .error "(parameters, body)"

namespace Machine

def popName (setup : Setup) (m : Machine) (op : Opcode)
    (go : (name : String) → (rest : List Cell) → Transition) : Transition :=
  match m.current.stack with
  | [] => m.underflow setup op
  | ⟨.str name, _⟩ :: rest => go name rest
  | cell :: rest =>
    let text := op.name ++ " expects a variable name, got " ++ cell.value.typeName
    (m.withStack rest).fail setup (.typeMismatch text) none

def popAssignment (setup : Setup) (m : Machine) (op : Opcode)
    (go : (name : String) → (value : Value) → (rest : List Cell) → Transition) : Transition :=
  m.popName setup op fun name rest =>
    match rest with
    | [] => m.underflow setup op
    | cell :: rest => go name cell.value rest

def execLoad (setup : Setup) (m : Machine) : Transition :=
  m.popName setup .load fun name rest =>
    match m.scopes.get? m.current.scope name with
    | some value => m.push value rest
    | none => (m.withStack rest).fail setup (.undefinedVariable name) none

def execStore (setup : Setup) (m : Machine) : Transition :=
  m.popAssignment setup .store fun name value rest =>
    { m with scopes := m.scopes.assign m.current.scope name value }.push value rest

def execDefine (setup : Setup) (m : Machine) : Transition :=
  m.popAssignment setup .define fun name value rest =>
    { m with scopes := m.scopes.define m.current.scope name value }.advance rest

def execGetMember (setup : Setup) (m : Machine) : Transition :=
  match m.current.stack with
  | key :: object :: rest =>
    match memberOf object.value key.value with
    | .ok value => m.push value rest
    | .error fault => (m.withStack rest).fail setup fault none
  | _ => m.underflow setup .getMember

def execBinary (setup : Setup) (m : Machine) (op : Opcode) : Transition :=
  match m.current.stack with
  | right :: left :: rest =>
    match Value.binary op left.value right.value with
    | .ok value => m.push value rest
    | .error .divisionByZero => (m.withStack rest).fail setup .divisionByZero right.source
    | .error e => (m.withStack rest).fail setup (.typeMismatch e.message) none
  | _ => m.underflow setup op

def execUnary (setup : Setup) (m : Machine) (op : Opcode) : Transition :=
  match m.current.stack with
  | operand :: rest =>
    match Value.unary op operand.value with
    | .ok value => m.push value rest
    | .error e => (m.withStack rest).fail setup (.typeMismatch e.message) operand.source
  | [] => m.underflow setup op

def execBranch (setup : Setup) (m : Machine) (op : Opcode) (target : Nat)
    (taken : Value → Bool) : Transition :=
  match m.current.stack with
  | condition :: rest => if taken condition.value then m.jump target rest else m.advance rest
  | [] => m.underflow setup op

def execJump (setup : Setup) (m : Machine) (i : Instr) : Transition :=
  match i.operand.offset? with
  | none => m.skip setup i.opcode "a jump offset"
  | some offset =>
    match jumpTarget? m.current.ip offset m.current.routine.code.length with
    | none => m.skip setup i.opcode "an in-range jump offset"
    | some target =>
      match i.opcode with
      | .jmp => m.jump target m.current.stack
      | .jz => m.execBranch setup .jz target fun v => !v.truthy
      | op => m.execBranch setup op target Value.truthy

def execProc (setup : Setup) (m : Machine) (operand : Operand) : Transition :=
  match closureOf m.current m.nextId operand with
  | .ok closure => { m with nextId := m.nextId + 1 }.push (.function closure) m.current.stack
  | .error expected => m.skip setup .proc expected

def beginScope (m : Machine) : Transition :=
  let (scope, scopes) := m.scopes.child m.current.scope
  { m with scopes := scopes, current := { m.current with scope := scope } }.advance m.current.stack

def endScope (m : Machine) : Transition :=
  let scope := (m.scopes.enclosing? m.current.scope).getD m.current.scope
  { m with current := { m.current with scope := scope } }.advance m.current.stack

def exec (setup : Setup) (m : Machine) (i : Instr) : Transition :=
  let stack := m.current.stack
  match i.opcode with
  | .exit => m.endLevel setup
  | .push =>
    match Value.ofOperand? i.operand with
    | some value => m.push value stack
    | none => m.skip setup .push "a constant"
  | .pushNone => m.push .none stack
  | .pushObject =>
    match i.operand with
    | .list entries => m.nextProperty setup 0 [] entries
    | _ => m.skip setup .pushObject "a property list"
  | .pop =>
    match stack with
    | _ :: rest => m.advance rest
    | [] => m.underflow setup .pop
  | .load => m.execLoad setup
  | .store => m.execStore setup
  | .define => m.execDefine setup
  | .getMember => m.execGetMember setup
  | .add | .sub | .mul | .div | .idiv | .mod | .pow | .band | .bor | .bxor | .shl | .shr
  | .and | .or | .eq | .ne | .lt | .le | .gt | .ge => m.execBinary setup i.opcode
  | .neg | .pos | .not | .bnot | .inc | .dec => m.execUnary setup i.opcode
  | .jmp | .jz | .jnz => m.execJump setup i
  | .proc => m.execProc setup i.operand
  | .call =>
    match i.operand with
    | .list args => m.nextArgument setup [] args
    | _ => m.skip setup .call "an argument list"
  | .ret => m.returnFrom
  | .beginScope => m.beginScope
  | .endScope => m.endScope

/-- The limit that an instruction would overstep: that of steps, itself counted, or that of the
stack as it finds it. -/
def overLimit? (limits : Limits) (m : Machine) : Option Fault :=
  match limits.maxSteps with
  | some max =>
    if max < m.steps then some (.stepLimit max) else overStack
  | none => overStack
where
  overStack : Option Fault :=
    if limits.maxStackSize < m.current.stack.length then some (.stackLimit limits.maxStackSize)
    else none

/-- Runs the current instruction. Behind the last one a call returns none, and a level without calls
ends. -/
def step (setup : Setup) (m : Machine) : Transition :=
  match m.current.instr? with
  | some i =>
    let m := { m with steps := m.steps + 1 }
    match m.overLimit? setup.limits with
    | some fault => m.fail setup fault none
    | none => m.exec setup i
  | none =>
    match m.current.frames with
    | [] => m.endLevel setup
    | _ => (m.withStack (⟨.none, none⟩ :: m.current.stack)).returnFrom

def run (setup : Setup) : (fuel : Nat) → Machine → Transition
  | 0, m => .running m
  | fuel + 1, m =>
    match m.step setup with
    | .running m => run setup fuel m
    | done => done

end Machine

end Quill
