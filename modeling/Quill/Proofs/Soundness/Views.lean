import Quill.Bound.Nodes
import Quill.Machine.Step
import Quill.Proofs.Evaluation.Direct
import Quill.Proofs.Flow.Optimized
import Quill.Proofs.Soundness.Operators
import Quill.Proofs.Typing.Points

/-! What is known at the points of code without functions: the types of the variables in the scopes
around it, and which expressions the values on the stack were left by. -/
namespace Quill

namespace Bound

def Expr.core : Expr → Expr
  | .grouping _ inner => inner.core
  | e => e

/-- What an expression may leave: values of its widened type, a literal only its own. -/
structure Expr.Admits (e : Expr) (v : Value) : Prop where
  typed : v.HasType e.type.widen
  literal {note : Note} {value : Literal} : e = .literal note value → v = value.value

def Expr.Computes (e : Expr) : Except ApplyError Value → Prop
  | .ok v => e.Admits v
  | .error reason => reason = .divisionByZero

def Key.Named (key : Key) (k : PropertyName) : Prop :=
  key.name? = some k ∧ ∀ e, key = .computed e → ∀ v, e.core.Admits v → v.key? = some k

def gathered (members : List TyMember) : List Property → List TyMember
  | [] => members
  | .mk key value _ :: rest =>
    match key.name? with
    | some k => gathered (insertMember members (.mk k value.core.type.widen false)) rest
    | none => gathered members rest

end Bound

/-- What lies on top of the stack for the next instruction, and is not the value of an expression. It
was left by the instruction of a node, whose number is kept. -/
inductive Cue where
  -- The name of a variable.
  | name (n : String) (id : Nat)
  | key (k : PropertyName) (id : Nat)
  deriving DecidableEq, Repr

def Cue.id : Cue → Nat
  | .name _ id | .key _ id => id

def Cue.Admits : Cue → Value → Prop
  | .name n _, v => v = .str n
  | .key k _, v => v.key? = some k

abbrev TypedNames := List (List (String × Ty))

def typeOf? : TypedNames → String → Option Ty
  | [], _ => none
  | vars :: outer, n =>
    match vars.find? (·.1 = n) with
    | some v => some v.2
    | none => typeOf? outer n

/-- The variables in scope; which expressions have left the values on the stack, the top first, below
a cue if there is one; and whether the code is that of a key or a value in an object. -/
structure View where
  types : TypedNames
  cue : Option Cue
  values : List Bound.Expr
  nested : Bool

def Bound.Property.keyView (types : TypedNames) : Bound.Property → View
  | .mk (.known k) value _ => ⟨types, some (.key k value.mark.id), [], true⟩
  | .mk (.computed e) _ _ => ⟨types, none, [e.core], true⟩

structure Instr.Leaves (nodes : List Bound.Node) (i : Instr) (e : Bound.Expr) : Prop where
  source : i.source = some e.mark.id
  known : e.node ∈ nodes

inductive Instr.Sees (nodes : List Bound.Node) (i : Instr) : View → View → Prop where
  | constant {v : Value} {e : Bound.Expr} {types : TypedNames}
      {values : List Bound.Expr} {nested : Bool} (op : i.opcode = .push)
      (operand : Value.ofOperand? i.operand = some v) (leaves : i.Leaves nodes e)
      (admits : e.Admits v) :
      Sees nodes i ⟨types, none, values, nested⟩ ⟨types, none, e :: values, nested⟩
  | blank {e : Bound.Expr} {types : TypedNames} {values : List Bound.Expr}
      {nested : Bool} (op : i.opcode = .pushNone) (leaves : i.Leaves nodes e)
      (admits : e.Admits .none) :
      Sees nodes i ⟨types, none, values, nested⟩ ⟨types, none, e :: values, nested⟩
  | cue {v : Value} {cue : Cue} {types : TypedNames} {values : List Bound.Expr}
      {nested : Bool} (op : i.opcode = .push) (operand : Value.ofOperand? i.operand = some v)
      (source : i.source = some cue.id) (admits : cue.Admits v) :
      Sees nodes i ⟨types, none, values, nested⟩ ⟨types, some cue, values, nested⟩
  | load {n : String} {type : Ty} {e : Bound.Expr} {types : TypedNames}
      {values : List Bound.Expr} {nested : Bool} (op : i.opcode = .load)
      (declared : typeOf? types n = some type) (leaves : i.Leaves nodes e)
      (admits : ∀ v : Value, v.HasType type → e.Admits v) :
      Sees nodes i ⟨types, some (.name n e.mark.id), values, nested⟩
        ⟨types, none, e :: values, nested⟩
  | store {n : String} {type : Ty} {e value : Bound.Expr} {types : TypedNames}
      {values : List Bound.Expr} {nested : Bool} (op : i.opcode = .store)
      (declared : typeOf? types n = some type) (leaves : i.Leaves nodes e)
      (fits : ∀ v, value.Admits v → v.HasType type) (admits : ∀ v, value.Admits v → e.Admits v) :
      Sees nodes i ⟨types, some (.name n e.mark.id), value :: values, nested⟩
        ⟨types, none, e :: values, nested⟩
  | define {n : String} {id : Nat} {type : Ty} {value : Bound.Expr} {inner : List (String × Ty)}
      {outer : TypedNames} (op : i.opcode = .define) (source : i.source = some id)
      (fits : ∀ v, value.Admits v → v.HasType type) :
      Sees nodes i ⟨inner :: outer, some (.name n id), [value], false⟩
        ⟨((n, type) :: inner) :: outer, none, [], false⟩
  | member {k : PropertyName} {e object : Bound.Expr} {types : TypedNames}
      {values : List Bound.Expr} {nested : Bool} (op : i.opcode = .getMember)
      (leaves : i.Leaves nodes e)
      (reads : ∀ v key, object.Admits v → key.key? = some k →
        ∃ u, memberOf v key = .ok u ∧ e.Admits u) :
      Sees nodes i ⟨types, some (.key k e.mark.id), object :: values, nested⟩
        ⟨types, none, e :: values, nested⟩
  | computed {e object key : Bound.Expr} {types : TypedNames}
      {values : List Bound.Expr} {nested : Bool} (op : i.opcode = .getMember)
      (leaves : i.Leaves nodes e)
      (reads : ∀ v w, object.Admits v → key.Admits w → ∃ u, memberOf v w = .ok u ∧ e.Admits u) :
      Sees nodes i ⟨types, none, key :: object :: values, nested⟩
        ⟨types, none, e :: values, nested⟩
  | binary {e left right : Bound.Expr} {types : TypedNames}
      {values : List Bound.Expr} {nested : Bool} (op : i.opcode.isBinary)
      (leaves : i.Leaves nodes e)
      (computes : ∀ a b, left.Admits a → right.Admits b →
        e.Computes (Value.binary i.opcode a b)) :
      Sees nodes i ⟨types, none, right :: left :: values, nested⟩
        ⟨types, none, e :: values, nested⟩
  | unary {e operand : Bound.Expr} {types : TypedNames} {values : List Bound.Expr}
      {nested : Bool} (op : i.opcode.isUnary) (leaves : i.Leaves nodes e)
      (computes : ∀ v, operand.Admits v → e.Computes (Value.unary i.opcode v)) :
      Sees nodes i ⟨types, none, operand :: values, nested⟩ ⟨types, none, e :: values, nested⟩
  | object {note : Bound.Note} {properties : List Bound.Property} {items : List Operand}
      {types : TypedNames} {values : List Bound.Expr} {nested : Bool}
      (op : i.opcode = .pushObject) (operand : i.operand = .list items)
      (shapes : ∀ x ∈ items, PropertyShape x) (length : items.length = properties.length)
      (leaves : i.Leaves nodes (.object note properties))
      (keys : ∀ p ∈ properties, ∃ k, p.key.Named k)
      (type : note.type = .interface none (Bound.gathered [] properties) []) :
      Sees nodes i ⟨types, none, values, nested⟩
        ⟨types, none, .object note properties :: values, nested⟩
  | pop {e : Bound.Expr} {types : TypedNames} {values : List Bound.Expr}
      {nested : Bool} (op : i.opcode = .pop) :
      Sees nodes i ⟨types, none, e :: values, nested⟩ ⟨types, none, values, nested⟩
  | beginScope {types : TypedNames} (op : i.opcode = .beginScope) :
      Sees nodes i ⟨types, none, [], false⟩ ⟨[] :: types, none, [], false⟩
  | endScope {vars : List (String × Ty)} {types : TypedNames}
      (op : i.opcode = .endScope) (inner : types ≠ []) :
      Sees nodes i ⟨vars :: types, none, [], false⟩ ⟨types, none, [], false⟩

inductive Instr.Turns (i : Instr) : View → View → Prop where
  | always {p : View} (op : i.opcode = .jmp) (used : p.cue = none) : Turns i p p
  | condition {e : Bound.Expr} {types : TypedNames} {values : List Bound.Expr}
      {nested : Bool} (op : i.opcode = .jz ∨ i.opcode = .jnz) :
      Turns i ⟨types, none, e :: values, nested⟩ ⟨types, none, values, nested⟩

inductive Instr.Fills (i : Instr) (p q : View) : Nat → View → View → Prop where
  | key {slot : Nat} {note : Bound.Note} {properties : List Bound.Property}
      {values : List Bound.Expr} {property : Bound.Property}
      (object : q.values = .object note properties :: values)
      (found : properties[slot / 2]? = some property) (even : slot % 2 = 0) :
      Fills i p q slot ⟨p.types, none, [], true⟩ (property.keyView p.types)
  | value {slot : Nat} {note : Bound.Note} {properties : List Bound.Property}
      {values : List Bound.Expr} {property : Bound.Property}
      (object : q.values = .object note properties :: values)
      (found : properties[slot / 2]? = some property) (odd : slot % 2 ≠ 0) :
      Fills i p q slot ⟨p.types, none, [], true⟩ ⟨p.types, none, [property.value.core], true⟩

def views (nodes : List Bound.Node) : NestedFlow View where
  effect := Instr.Sees nodes
  jumps := Instr.Turns
  exits p := p.cue = none ∧ p.nested = false
  enters := Instr.Fills

variable {nodes : List Bound.Node} {i : Instr} {p q : View}

theorem Instr.Sees.notJump (sees : i.Sees nodes p q) : i.opcode.isJump = false := by
  cases sees with
  | binary op => exact (Opcode.binaryOnly op).2
  | unary op => exact (Opcode.unaryOnly op).2
  | _ => simp only [*, Opcode.isJump]

theorem Instr.Sees.ofConstant {v : Value} {e : Bound.Expr} {types : TypedNames}
    {values : List Bound.Expr} {nested : Bool} (push : i.opcode = .push)
    (operand : Value.ofOperand? i.operand = some v)
    (sees : i.Sees nodes p ⟨types, none, e :: values, nested⟩) :
    p = ⟨types, none, values, nested⟩ ∧ e.Admits v := by
  cases sees with
  | constant op operand' leaves admits =>
    cases operand.symm.trans operand'
    exact ⟨rfl, admits⟩
  | binary op => rw [push] at op; cases op
  | unary op => rw [push] at op; cases op
  | blank op | load op | store op | member op | computed op | object op | pop op =>
    cases push.symm.trans op

theorem Instr.Sees.optimized (sees : i.Sees nodes p q) : i.optimize.Sees nodes p q := by
  have sources : i.optimize.source = i.source := by
    cases i
    rfl
  have leaves {e : Bound.Expr} (leaves : i.Leaves nodes e) : i.optimize.Leaves nodes e :=
    ⟨sources.trans leaves.source, leaves.known⟩
  have constant {v : Value} (operand : Value.ofOperand? i.operand = some v) :
      Value.ofOperand? i.optimize.operand = some v := by
    rw [optimizeOperand]
    exact (optimizeShape i.operand).constant.symm.trans operand
  have code := optimizeOpcode i
  cases sees with
  | constant op operand left admits => exact .constant (code.trans op) (constant operand) (leaves left) admits
  | blank op left admits => exact .blank (code.trans op) (leaves left) admits
  | cue op operand source admits =>
    exact .cue (code.trans op) (constant operand) (sources.trans source) admits
  | load op declared left admits => exact .load (code.trans op) declared (leaves left) admits
  | store op declared left fits admits =>
    exact .store (code.trans op) declared (leaves left) fits admits
  | define op source fits => exact .define (code.trans op) (sources.trans source) fits
  | member op left reads => exact .member (code.trans op) (leaves left) reads
  | computed op left reads => exact .computed (code.trans op) (leaves left) reads
  | binary op left computes => exact .binary (code ▸ op) (leaves left) (code ▸ computes)
  | unary op left computes => exact .unary (code ▸ op) (leaves left) (code ▸ computes)
  | @object note properties items types values nested op operand shapes length left keys type =>
    have listed : i.optimize.operand = .list (optimizeOperands items) := by
      rw [optimizeOperand, operand]
      rfl
    refine .object (code.trans op) listed (optimizedAll shapes ?_) ?_ (leaves left) keys type
    · rintro _ ⟨key, value, rfl⟩
      exact ⟨_, _, rfl⟩
    · rw [optimizeMap, List.length_map, length]
  | pop op => exact .pop (code.trans op)
  | beginScope op => exact .beginScope (code.trans op)
  | endScope op inner => exact .endScope (code.trans op) inner

theorem viewsFold : (views nodes).Folds where
  jumpsOnly jumps := by
    cases jumps with
    | always op _ => rw [op]; rfl
    | condition op => rcases op with op | op <;> rw [op] <;> rfl
  jumpsSame jumps same := by
    cases jumps with
    | always op used => exact .always (same.trans op) used
    | condition op => exact .condition (same ▸ op)
  effectOnly := Instr.Sees.notJump
  binary := by
    intro left right op p q r s a b v x leftPush leftConstant leftEffect rightPush rightConstant
      rightEffect binary given opEffect folding
    cases opEffect with
    | binary _ leaves computes =>
      obtain ⟨rfl, admitsRight⟩ := rightEffect.ofConstant rightPush rightConstant
      obtain ⟨rfl, admitsLeft⟩ := leftEffect.ofConstant leftPush leftConstant
      have computed := computes a b admitsLeft admitsRight
      rw [given] at computed
      exact .constant rfl folding ⟨leaves.source, leaves.known⟩ computed
    | constant op | blank op | cue op | load op | store op | define op | member op | computed op
    | object op | pop op | beginScope op | endScope op => rw [op] at binary; cases binary
    | unary op => cases (Opcode.unaryOnly op).1.symm.trans binary
  unary := by
    intro operand op p q r a v x push constant operandEffect unary given opEffect folding
    cases opEffect with
    | unary _ leaves computes =>
      obtain ⟨rfl, admits⟩ := operandEffect.ofConstant push constant
      have computed := computes a admits
      rw [given] at computed
      exact .constant rfl folding ⟨leaves.source, leaves.known⟩ computed
    | constant op | blank op | cue op | load op | store op | define op | member op | computed op
    | object op | pop op | beginScope op | endScope op => rw [op] at unary; cases unary
    | binary op => cases (Opcode.binaryOnly op).1.symm.trans unary
  effectOptimized := Instr.Sees.optimized
  entersOptimized enters := by
    cases enters with
    | key object found even => exact .key object found even
    | value object found odd => exact .value object found odd

end Quill
