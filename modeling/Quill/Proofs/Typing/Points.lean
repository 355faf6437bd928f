import Quill.Proofs.Simulation.Shapes

/-! Code whose stack is known in advance. At each of its points it has put certain values on the
stack, and begun certain scopes, whichever way it got there. -/
namespace Quill

inductive Known where
  | value
  | name
  deriving DecidableEq, Repr

def Known.Holds : Known → Value → Prop
  | .value, _ => True
  | .name, v => ∃ s, v = .str s

structure Point where
  stack : List Known
  blocks : Nat
  deriving DecidableEq, Repr

def Point.start : Point := ⟨[], 0⟩

def ArgumentShape (x : Operand) : Prop := ∃ name code, x = .tuple name (.code code)

def PropertyShape (x : Operand) : Prop := ∃ key value, x = .tuple (.code key) (.code value)

def ParamShape (x : Operand) : Prop := ∃ name default, x = .tuple (.str name) default

/-- What an instruction takes off the stack and puts on it, if the next one follows. A return behind
which the run goes on has done nothing, but its value is left to whoever wants the result. -/
inductive Instr.Effect (i : Instr) : Point → Point → Prop where
  | push {v : Value} {k : Known} {s : List Known} {b : Nat} (op : i.opcode = .push)
      (constant : Value.ofOperand? i.operand = some v) (holds : k.Holds v) :
      Effect i ⟨s, b⟩ ⟨k :: s, b⟩
  | pushNone {s : List Known} {b : Nat} (op : i.opcode = .pushNone) :
      Effect i ⟨s, b⟩ ⟨.value :: s, b⟩
  | pushObject {items : List Operand} {s : List Known} {b : Nat} (op : i.opcode = .pushObject)
      (list : i.operand = .list items) (shapes : ∀ x ∈ items, PropertyShape x) :
      Effect i ⟨s, b⟩ ⟨.value :: s, b⟩
  | pop {k : Known} {s : List Known} {b : Nat} (op : i.opcode = .pop) :
      Effect i ⟨k :: s, b⟩ ⟨s, b⟩
  | load {s : List Known} {b : Nat} (op : i.opcode = .load) :
      Effect i ⟨.name :: s, b⟩ ⟨.value :: s, b⟩
  | store {k : Known} {s : List Known} {b : Nat} (op : i.opcode = .store) :
      Effect i ⟨.name :: k :: s, b⟩ ⟨.value :: s, b⟩
  | define {k : Known} {s : List Known} {b : Nat} (op : i.opcode = .define) :
      Effect i ⟨.name :: k :: s, b⟩ ⟨s, b⟩
  | getMember {k l : Known} {s : List Known} {b : Nat} (op : i.opcode = .getMember) :
      Effect i ⟨k :: l :: s, b⟩ ⟨.value :: s, b⟩
  | binary {k l : Known} {s : List Known} {b : Nat} (op : i.opcode.isBinary) :
      Effect i ⟨k :: l :: s, b⟩ ⟨.value :: s, b⟩
  | unary {k : Known} {s : List Known} {b : Nat} (op : i.opcode.isUnary) :
      Effect i ⟨k :: s, b⟩ ⟨.value :: s, b⟩
  | proc {params : List Operand} {body : Code} {s : List Known} {b : Nat} (op : i.opcode = .proc)
      (function : i.operand = .tuple (.list params) (.code body))
      (shapes : ∀ x ∈ params, ParamShape x) : Effect i ⟨s, b⟩ ⟨.value :: s, b⟩
  | call {items : List Operand} {k : Known} {s : List Known} {b : Nat} (op : i.opcode = .call)
      (list : i.operand = .list items) (shapes : ∀ x ∈ items, ArgumentShape x) :
      Effect i ⟨k :: s, b⟩ ⟨.value :: s, b⟩
  | ret {k : Known} {b : Nat} (op : i.opcode = .ret) : Effect i ⟨[k], b⟩ ⟨[], b⟩
  | beginScope {s : List Known} {b : Nat} (op : i.opcode = .beginScope) :
      Effect i ⟨s, b⟩ ⟨s, b + 1⟩
  | endScope {s : List Known} {b : Nat} (op : i.opcode = .endScope) :
      Effect i ⟨s, b + 1⟩ ⟨s, b⟩

inductive Instr.Jumps (i : Instr) : Point → Point → Prop where
  | always {p : Point} (op : i.opcode = .jmp) : Jumps i p p
  | branch {k : Known} {s : List Known} {b : Nat} (op : i.opcode = .jz ∨ i.opcode = .jnz) :
      Jumps i ⟨k :: s, b⟩ ⟨s, b⟩

inductive Instr.Fits (final : Option Point) (length : Nat) (points : Nat → Point) (ip : Nat)
    (i : Instr) : Prop where
  | straight (effect : i.Effect (points ip) (points (ip + 1)))
  | jump {offset : Int32} (target : Nat) (jumps : i.Jumps (points ip) (points target))
      (given : i.operand.offset? = some offset)
      (found : jumpTarget? ip offset length = some target)
      (next : i.opcode ≠ .jmp → points (ip + 1) = points target)
  | exit (op : i.opcode = .exit) (ends : final = some (points ip))

inductive Typed : Option Point → Code → Prop where
  | intro {final : Option Point} {code : Code} (points : Nat → Point) (start : points 0 = .start)
      (stop : ∀ p, final = some p → ∀ ip ≥ code.length, points ip = p)
      (fits : ∀ ip (i : Instr), code[ip]? = some i → i.Fits final code.length points ip)
      (inner : ∀ i ∈ code, ∀ slot c, i.slot? slot = some c → Typed none c) : Typed final code

structure Typing (final : Option Point) (code : Code) (points : Nat → Point) : Prop where
  start : points 0 = .start
  stop (p : Point) : final = some p → ∀ ip ≥ code.length, points ip = p
  fits (ip : Nat) (i : Instr) : code[ip]? = some i → i.Fits final code.length points ip
  inner (i : Instr) : i ∈ code → ∀ slot c, i.slot? slot = some c → Typed none c

theorem Typed.typing {final : Option Point} {code : Code} (typed : Typed final code) :
    ∃ points, Typing final code points := by
  cases typed with
  | intro points start stop fits inner => exact ⟨points, start, stop, fits, inner⟩

theorem Typing.typed {final : Option Point} {code : Code} {points : Nat → Point}
    (typing : Typing final code points) : Typed final code :=
  .intro points typing.start typing.stop typing.fits typing.inner

end Quill
