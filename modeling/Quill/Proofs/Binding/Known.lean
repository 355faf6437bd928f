import Quill.Proofs.Assignability.Made
import Quill.Proofs.Binding.Clean
import Quill.Proofs.Parsing.Numerals

/-! The types that binding knows: those of the built-in functions, of the operator tables, and those
that annotations stand for. All of them are regular, if no literal is not-a-number. -/
namespace Quill

section
variable {α : Type} {P : α → Prop}

theorem ofNone : ∀ a ∈ (none : Option α), P a := nofun

theorem ofSome {a : α} (holds : P a) : ∀ b ∈ some a, P b := by
  rintro _ ⟨⟩
  exact holds

end

namespace Scopes

variable {α : Type} {P : α → Prop} {s : Scopes α} {p : α → Bool} {x : α}

def All (P : α → Prop) (s : Scopes α) : Prop := ∀ x ∈ s.all.flatten, P x

theorem All.pop (every : s.All P) : s.pop.All P := by
  intro x held
  obtain ⟨scope, inside, held⟩ := List.mem_flatten.mp held
  refine every x (List.mem_flatten.mpr ⟨scope, ?_, held⟩)
  rcases List.mem_append.mp inside with dropped | outermost
  · exact List.mem_append_left _ (List.mem_of_mem_drop dropped)
  · exact List.mem_append_right _ outermost

theorem All.add (every : s.All P) (holds : P x) : (s.add x).All P := by
  obtain ⟨_ | ⟨here, outer⟩, global⟩ := s <;> exact List.forall_mem_cons.mpr ⟨holds, every⟩

theorem All.find (every : s.All P) (found : s.find? p = some x) : P x :=
  every x (List.mem_of_find?_eq_some found)

end Scopes

structure SymbolTable.Regular (t : SymbolTable) : Prop where
  vars : t.varScopes.All fun v => v.type.Regular
  types : t.typeScopes.All fun p => p.2.Regular

namespace SymbolTable

variable {t : SymbolTable} {name : String} {type : Ty}

theorem newRegular : new.Regular := ⟨nofun, nofun⟩

theorem Regular.push (regular : t.Regular) : t.push.Regular := ⟨regular.vars, regular.types⟩

theorem Regular.pop (regular : t.Regular) : t.pop.Regular := ⟨regular.vars.pop, regular.types.pop⟩

theorem Regular.define (regular : t.Regular) (types : type.Regular) (name : String)
    (mutable isIntrinsic : Bool) : (t.define name type mutable isIntrinsic).2.Regular :=
  ⟨regular.vars.add types, regular.types⟩

theorem Regular.defineType (regular : t.Regular) (types : type.Regular) (name : String) :
    (t.defineType name type).Regular :=
  ⟨regular.vars, regular.types.add types⟩

theorem Regular.lookup (regular : t.Regular) {symbol : VarSymbol}
    (found : t.lookup name = some symbol) : symbol.type.Regular :=
  regular.vars.find found

theorem Regular.lookupType (regular : t.Regular) (found : t.lookupType name = some type) :
    type.Regular := by
  obtain ⟨p, held, rfl⟩ := Option.map_eq_some_iff.mp found
  exact regular.types.find held

end SymbolTable

theorem numberRegular : Operators.number.Regular := by
  refine Ty.unionRegular (List.cons_ne_nil _ _) (List.forall_mem_cons.mpr ⟨?_, ?_⟩)
  · exact Ty.primitiveRegular _
  · exact List.forall_mem_singleton.mpr (Ty.primitiveRegular _)

theorem textRegular : Operators.text.Regular := by
  refine Ty.unionRegular (List.cons_ne_nil _ _) (List.forall_mem_cons.mpr ⟨?_, ?_⟩)
  · exact Ty.primitiveRegular _
  · exact List.forall_mem_singleton.mpr (Ty.primitiveRegular _)

theorem signatureRegular (i : Intrinsic) : i.signature.Regular := by
  refine Ty.functionRegular (List.forall_mem_map.mpr ?_) ?_
  · cases i <;> simp [Intrinsic.params, TyParam.type, Ty.anyRegular, Ty.primitiveRegular,
      numberRegular]
  · cases i <;> exact Ty.primitiveRegular _

theorem initialRegular : SymbolTable.initial.Regular := by
  have every (known : List Intrinsic) (t : SymbolTable) (regular : t.Regular) :
      (known.foldl (fun t i => (t.define i.name i.signature false true).2) t).Regular := by
    induction known generalizing t with
    | nil => exact regular
    | cons i rest ih => exact ih _ (regular.define (signatureRegular i) i.name false true)
  exact every Intrinsic.all .new SymbolTable.newRegular

theorem binaryRowRegular : ∀ row ∈ Operators.binaryTable,
    row.left.Regular ∧ row.right.Regular ∧ row.result.Regular := by
  simp [Operators.binaryTable, numberRegular, textRegular, Ty.anyRegular, Ty.primitiveRegular]

theorem unaryRowRegular : ∀ row ∈ Operators.unaryTable,
    row.operand.Regular ∧ row.result.Regular := by
  simp [Operators.unaryTable, Ty.primitiveRegular]

theorem stepRowRegular : ∀ row ∈ Operators.stepTable, row.operand.Regular := by
  simp [Operators.stepTable, Ty.primitiveRegular]

theorem Literal.typeRegular {v : Literal} (numeric : v.Numeric) : v.type.Regular := by
  cases v with
  | none => exact Ty.primitiveRegular .none
  | float x => exact Ty.literalRegular (numeric x rfl)
  | _ => exact Ty.literalRegular rfl

namespace Binder

def Keeps {α : Type} (b : Binder α) (Q : α → Prop) : Prop :=
  ∀ s, s.symbols.Regular → (b s).2.symbols.Regular ∧ Q (b s).1

namespace Keeps

variable {α β : Type} {b : Binder α} {f : α → Binder β} {Q : α → Prop} {R : β → Prop}

theorem pure {a : α} (given : Q a) : Binder.Keeps (Pure.pure a) Q :=
  fun _ regular => ⟨regular, given⟩

theorem get : Binder.Keeps get fun s => s.symbols.Regular := fun _ regular => ⟨regular, regular⟩

theorem bind (first : Binder.Keeps b Q) (next : ∀ a, Q a → Binder.Keeps (f a) R) :
    Binder.Keeps (b >>= f) R := fun s regular =>
  have ⟨between, given⟩ := first s regular
  next _ given _ between

theorem reads (reads : Binder.Reads b) : Binder.Keeps b fun _ => True := fun s regular =>
  ⟨reads.symbols s ▸ regular, trivial⟩

theorem report {d : Diagnostic} {k : Unit → Binder β} (next : Binder.Keeps (k ()) R) :
    Binder.Keeps (Binder.report d >>= k) R := fun _ regular => next _ regular

theorem error {code : DiagnosticCode} {span : Span} {message : String} {k : Unit → Binder β}
    (next : Binder.Keeps (k ()) R) : Binder.Keeps (Binder.error code span message >>= k) R :=
  .report next

end Keeps

theorem lookupKeeps (span : Span) (name : String) :
    Keeps (lookup span name) fun found => ∀ v ∈ found, v.type.Regular := by
  refine Keeps.get.bind fun s regular => ?_
  dsimp only
  split
  · exact .error (.pure fun v found => regular.lookup found)
  · exact .pure fun v found => regular.lookup found

theorem mutableKeeps (span : Span) (symbol : VarSymbol) :
    Keeps (requireMutable span symbol) fun _ => True := by
  refine .reads ?_
  unfold requireMutable
  split
  · exact .pure _
  · exact .error _ _ _

theorem defineKeeps {type : Ty} (regular : type.Regular) (name : String) (mutable : Bool) :
    Keeps (define name type mutable) fun symbol => symbol.type = type := fun _ known =>
  ⟨known.define regular name mutable false, rfl⟩

theorem defineTypeKeeps {type : Ty} (regular : type.Regular) (name : String) :
    Keeps (defineType name type) fun _ => True := fun _ known =>
  ⟨known.defineType regular name, trivial⟩

theorem pushKeeps : Keeps pushScope fun _ => True := fun _ known => ⟨known.push, trivial⟩

theorem popKeeps : Keeps popScope fun _ => True := fun _ known => ⟨known.pop, trivial⟩

end Binder

open Binder (Keeps)

theorem indexSignatureKeeps (span : Span) {shape : Shape} {type : Ty}
    (regular : shape.type.Regular) (types : type.Regular) (key : Ty) :
    Keeps (addIndexSignature span shape key type) fun s => s.type.Regular := by
  unfold addIndexSignature
  split
  · exact .pure (Shape.indexRegular regular types .string)
  · exact .pure (Shape.indexRegular regular types .int)
  · exact .error (.pure regular)

mutual

theorem typeKeeps (span : Span) : (written : TypeExpr) → written.Written Literal.Numeric →
    Keeps (resolveType span written) Ty.Regular
  | .named name args, numeric => by
    rw [resolveType]
    split
    · exact .pure Ty.anyRegular
    split
    · exact .pure (Ty.primitiveRegular _)
    refine Keeps.get.bind fun s known => ?_
    split
    · rename_i found
      exact .pure (known.lookupType found)
    · exact (typesKeep span args numeric).bind fun _ regular => .pure (Ty.namedRegular regular)
  | .literal _, numeric => by
    rw [resolveType]
    exact .pure (Literal.typeRegular numeric)
  | .array element, numeric => by
    rw [resolveType]
    exact (typeKeeps span element numeric).bind fun _ regular => .pure (Ty.arrayRegular regular)
  | .function params ret, ⟨taken, returned⟩ => by
    rw [resolveType]
    exact (paramsKeep span 0 params taken).bind fun ps regular =>
      (typeKeeps span ret returned).bind fun type returns =>
        .pure (Ty.functionRegular regular returns)
  | .interface members, numeric => by
    rw [resolveType]
    exact (membersKeep span Shape.emptyRegular members numeric).bind fun _ => .pure
  | .union members, numeric => by
    rw [resolveType]
    exact (typesKeep span members numeric).bind fun _ regular => .pure (Ty.unionOfRegular regular)
  | .intersection members, numeric => by
    rw [resolveType]
    exact (typesKeep span members numeric).bind fun _ regular =>
      .pure (Ty.intersectionRegular regular)
  | .parenthesized inner, numeric => by
    rw [resolveType]
    exact (typeKeeps span inner numeric).bind fun _ regular =>
      .pure (Ty.parenthesizedRegular regular)

theorem typesKeep (span : Span) : (written : List TypeExpr) → typesWritten Literal.Numeric written →
    Keeps (resolveTypes span written) fun types => ∀ t ∈ types, t.Regular
  | [], _ => by
    rw [resolveTypes]
    exact .pure nofun
  | t :: rest, ⟨first, others⟩ => by
    rw [resolveTypes]
    exact (typeKeeps span t first).bind fun _ regular => (typesKeep span rest others).bind
      fun _ regulars => .pure (List.forall_mem_cons.mpr ⟨regular, regulars⟩)

theorem paramsKeep (span : Span) (n : Nat) : (params : List TypeParam) →
    typeParamsWritten Literal.Numeric params →
    Keeps (resolveParams span n params) fun ps => ∀ p ∈ ps, p.type.Regular
  | [], _ => by
    rw [resolveParams]
    exact .pure nofun
  | .mk _ t _ :: rest, ⟨first, others⟩ => by
    rw [resolveParams]
    exact (typeKeeps span t first).bind fun _ regular => (paramsKeep span (n + 1) rest others).bind
      fun _ regulars => .pure (List.forall_mem_cons.mpr ⟨regular, regulars⟩)

theorem membersKeep (span : Span) {shape : Shape} (known : shape.type.Regular) :
    (members : List TypeMember) → typeMembersWritten Literal.Numeric members →
    Keeps (resolveMembers span shape members) fun s => s.type.Regular
  | [], _ => by
    rw [resolveMembers]
    exact .pure known
  | .property key t mutable :: rest, ⟨first, others⟩ => by
    rw [resolveMembers]
    exact (typeKeeps span t first).bind fun _ regular =>
      membersKeep span (Shape.memberRegular known regular key mutable) rest others
  | .index key t :: rest, ⟨keys, first, others⟩ => by
    rw [resolveMembers]
    exact (typeKeeps span key keys).bind fun kind _ => (typeKeeps span t first).bind
      fun _ regular => (indexSignatureKeeps span known regular kind).bind fun _ grown =>
        membersKeep span grown rest others

end

theorem annotationKeeps (span : Span) {written : Option TypeExpr}
    (numeric : typeWritten Literal.Numeric written) :
    Keeps ( resolveAnnotation span written) fun type => ∀ t ∈ type, t.Regular := by
  cases written with
  | none => exact .pure ofNone
  | some t => exact (typeKeeps span t (numeric t rfl)).bind fun _ regular => .pure (ofSome regular)

theorem givenRegular {type : Option Ty} (regular : ∀ t ∈ type, t.Regular) {other : Ty}
    (otherwise : other.Regular) : (type.getD other).Regular := by
  cases type with
  | none => exact otherwise
  | some t => exact regular t rfl

theorem signatureKeeps (span : Span) (params : List Param)
    (numeric : paramsWritten Literal.Numeric params) :
    Keeps (resolveSignature span params) fun ps => ∀ p ∈ ps, p.type.Regular := by
  induction params with
  | nil => exact .pure nofun
  | cons p rest ih =>
    obtain ⟨name, t, default⟩ := p
    have parts : typeWritten Literal.Numeric t ∧ paramsWritten Literal.Numeric rest := by
      cases default with
      | none => exact numeric
      | some _ => exact ⟨numeric.1, numeric.2.2⟩
    refine ( annotationKeeps span parts.1).bind fun type regular => (ih parts.2).bind
      fun ps regulars => .pure ?_
    exact List.forall_mem_cons.mpr ⟨givenRegular regular Ty.anyRegular, regulars⟩

end Quill
