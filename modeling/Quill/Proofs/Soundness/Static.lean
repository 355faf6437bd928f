import Quill.Proofs.Binding.Clean
import Quill.Proofs.Scoping.Tables
import Quill.Proofs.Soundness.Fragment
import Quill.Proofs.Soundness.Views

/-! Types of bound expressions without functions. They are those of literals or of variables, and an
object has an interface with the types of its properties. -/
namespace Quill

def VarSymbol.typed (s : VarSymbol) : String × Ty := (s.name, s.type)

namespace SymbolTable

def types (t : SymbolTable) : TypedNames := t.vars.map (·.map VarSymbol.typed)

def Declares (t : SymbolTable) : Prop := ∀ s ∈ t.vars.flatten, s.type.Declared

variable {t u : SymbolTable} {name : String}

theorem typesSame (same : u.vars = t.vars) : u.types = t.types :=
  congrArg (List.map (List.map VarSymbol.typed)) same

theorem Declares.same (declares : t.Declares) (same : u.vars = t.vars) : u.Declares := by
  rw [Declares, same]
  exact declares

theorem Declares.push (declares : t.Declares) : t.push.Declares := declares

theorem Declares.found {symbol : VarSymbol} (declares : t.Declares)
    (found : t.lookup name = some symbol) : symbol.type.Declared :=
  declares symbol (lookupVars found).1

theorem Declares.define {type : Ty} {mutable isIntrinsic : Bool} (declares : t.Declares)
    (declared : type.Declared) : (t.define name type mutable isIntrinsic).2.Declares := by
  obtain ⟨inner, outer, whole⟩ := t.varsCons
  rw [Declares, whole] at declares
  rw [Declares, defineVars whole]
  exact List.forall_mem_cons.mpr ⟨declared, declares⟩

theorem lookupTypes {symbol : VarSymbol} (found : t.lookup name = some symbol) :
    typeOf? t.types name = some symbol.type := by
  have each (scopes : List (List VarSymbol)) :
      typeOf? (scopes.map (·.map VarSymbol.typed)) name =
        (scopes.flatten.find? (·.name = name)).map VarSymbol.type := by
    induction scopes with
    | nil => rfl
    | cons s rest ih =>
      rw [List.map_cons, typeOf?, ih, List.flatten_cons, List.find?_append, List.find?_map]
      have same : (fun x : String × Ty => decide (x.1 = name)) ∘ VarSymbol.typed =
          fun s => decide (s.name = name) := rfl
      rw [same]
      cases s.find? (·.name = name) <;> rfl
  exact (each t.vars).trans (congrArg (Option.map VarSymbol.type) found)

theorem defineTypes {type : Ty} {mutable isIntrinsic : Bool} {inner : List (String × Ty)}
    {outer : TypedNames} (types : t.types = inner :: outer) :
    (t.define name type mutable isIntrinsic).2.types = ((name, type) :: inner) :: outer := by
  obtain ⟨_, _, whole⟩ := t.varsCons
  rw [SymbolTable.types, whole] at types
  cases types
  rw [SymbolTable.types, defineVars whole]
  rfl

theorem initialDeclares : SymbolTable.initial.Declares := by
  have defined (builtins : List Intrinsic) (t : SymbolTable) (declares : t.Declares) :
      (builtins.foldl (fun t i => (t.define i.name i.signature false true).2) t).Declares := by
    induction builtins generalizing t with
    | nil => exact declares
    | cons i rest ih => exact ih _ (declares.define (.builtin rfl))
  exact defined Intrinsic.all .new nofun

end SymbolTable

theorem Binder.Yields.failed {α : Type} {code : DiagnosticCode} {span : Span} {message : String}
    {a a' : α} {t u : SymbolTable}
    (yields : Binder.Yields (do Binder.error code span message; return a) t a' u) : False := by
  obtain ⟨ds, ds', given, clean⟩ := yields
  cases given
  cases (Diagnostics.cleanParts clean).2

theorem Binder.Yields.pure {α : Type} {a a' : α} {t u : SymbolTable}
    (yields : Binder.Yields (Pure.pure a) t a' u) : a' = a := by
  obtain ⟨ds, ds', given, clean⟩ := yields
  cases given
  rfl

theorem literalAdmits {note : Bound.Note} {value : Literal} {v : Value}
    (admits : (Bound.Expr.literal note value).Admits v) : v = value.value :=
  admits.literal rfl

theorem literalNamed {mark : Mark} {value : Literal} {k : PropertyName}
    (named : value.type.asKey? = some k) :
    Bound.Key.Named (.computed (.literal ⟨mark, value.type⟩ value)) k := by
  refine ⟨named, ?_⟩
  rintro _ ⟨⟩ v admits
  rw [literalAdmits admits]
  cases value <;> cases named <;> rfl

theorem literalIndex {value : Literal} (unnamed : value.type.asKey? = none) :
    value.type.indexKind? = none := by
  cases value with
  | int _ => cases unnamed
  | string _ => cases unnamed
  | _ => simp [Literal.type, Ty.indexKind?, Ty.assignableTo, LitValue.kind]

theorem keyAdds {t u v : SymbolTable} {key : Key} {key' : Bound.Key} {span : Span}
    {shape shape' : Shape} {type own : Ty} (written : key.isWritten) (keys : KeyBinds t key key' u)
    (added : (addProperty span shape key' type).Yields v (shape', own) v) :
    ∃ k, key'.Named k ∧ shape' = shape.addMember k type false := by
  unfold addProperty at added
  cases keys with
  | known name =>
    cases added.pure
    exact ⟨name, ⟨rfl, nofun⟩, rfl⟩
  | @computed _ _ key key' keys =>
    cases keys with
    | literal mark value =>
      cases named : value.type.asKey? with
      | some k =>
        simp only [Bound.Key.name?, Bound.Expr.type, Bound.Expr.note, named] at added
        cases added.pure
        exact ⟨k, literalNamed named, rfl⟩
      | none =>
        simp only [Bound.Key.name?, Bound.Key.type, Bound.Expr.type, Bound.Expr.note, named,
          literalIndex named] at added
        exact added.failed.elim
    | _ => cases written

theorem memberKnown {t u : SymbolTable} {key : Key} {key' : Bound.Key} {members : List TyMember}
    {type : Ty} (written : key.isWritten) (keys : KeyBinds t key key' u)
    (known : memberType members [] key' = some type) :
    ∃ m ∈ members, key'.Named m.key ∧ m.type = type := by
  have listed {k : PropertyName} (named : key'.Named k)
      (known : lookupMember members [] k = some type) :
      ∃ m ∈ members, key'.Named m.key ∧ m.type = type := by
    unfold lookupMember at known
    split at known
    · rename_i m found
      cases known
      have same := List.find?_some found
      rw [decide_eq_true_eq] at same
      exact ⟨m, List.mem_of_find?_eq_some found, same ▸ named, rfl⟩
    · cases known
  cases keys with
  | known name => exact listed ⟨rfl, nofun⟩ known
  | @computed _ _ key key' keys =>
    cases keys with
    | literal mark value =>
      simp only [memberType, Bound.Key.name?, Bound.Key.type, Bound.Expr.type, Bound.Expr.note] at known
      cases named : value.type.asKey? with
      | some k =>
        rw [named] at known
        exact listed (literalNamed named) known
      | none =>
        rw [named] at known
        simp only [literalIndex named, Option.bind_none] at known
        cases value <;> cases known
    | _ => cases written

theorem keyReads {t u v : SymbolTable} {key : Key} {key' : Bound.Key} {span : Span}
    {object type : Ty} (written : key.isWritten) (keys : KeyBinds t key key' u)
    (simple : object.Simple) (read : (bindMember span object key').Yields v type v) :
    ∃ name members m, object = .interface name members [] ∧ m ∈ members ∧ key'.Named m.key ∧
      m.type = type := by
  unfold bindMember at read
  cases simple with
  | literal value => exact read.failed.elim
  | declared declared =>
    cases declared with
    | primitive p => exact read.failed.elim
    | builtin signature =>
      subst signature
      exact read.failed.elim
    | @interface name members held =>
      simp only [Ty.unwrapParens] at read
      cases known : memberType members [] key' with
      | none =>
        rw [known] at read
        exact read.failed.elim
      | some found =>
        rw [known] at read
        cases read.pure
        obtain ⟨m, inside, named, same⟩ := memberKnown written keys known
        exact ⟨name, members, m, rfl, inside, named, same⟩

theorem resultSimple {types : List Ty} {result : Ty} {p : Primitive}
    (simple : ∀ t ∈ types, t.Simple) (primitive : result = .primitive p) :
    resultType types result = .primitive p := by
  have known : types.any Ty.isAny = false := by
    rw [List.any_eq_false]
    intro t inside
    rw [(simple t inside).known]
    exact Bool.false_ne_true
  rw [resultType, known, primitive]
  rfl

namespace Operators

variable {left right : Ty}

theorem binarySimple {op : BinaryOp} {row : BinaryRow}
    (found : resolveBinary op left right = some row) (simpleLeft : left.Simple)
    (simpleRight : right.Simple) :
    ∃ p, row.result = .primitive p ∧ resultType [left, right] row.result = .primitive p := by
  obtain ⟨p, same⟩ := binaryResult row (List.mem_of_find?_eq_some found)
  refine ⟨p, same, resultSimple ?_ same⟩
  exact List.forall_mem_cons.mpr ⟨simpleLeft, List.forall_mem_singleton.mpr simpleRight⟩

theorem unarySimple {op : UnaryOp} {row : UnaryRow} (found : resolveUnary op left = some row)
    (simple : left.Simple) :
    ∃ p, row.result = .primitive p ∧ resultType [left] row.result = .primitive p := by
  obtain ⟨_, p, _, same⟩ := unaryRow row (List.mem_of_find?_eq_some found)
  exact ⟨p, same, resultSimple (List.forall_mem_singleton.mpr simple) same⟩

theorem stepSimple {op : StepOp} {row : StepRow} (found : resolveStep op left = some row)
    (declared : left.Declared) :
    ∃ p, left = .primitive p ∧ resultType [left] row.operand = .primitive p := by
  obtain ⟨p, same⟩ := stepRow row (List.mem_of_find?_eq_some found)
  have simple : ∀ t ∈ [left], t.Simple := List.forall_mem_singleton.mpr (.declared declared)
  exact ⟨p, (stepComputes (a := .none) found declared).1.trans same, resultSimple simple same⟩

end Operators

theorem coreType {expected : Option Ty} {t u : SymbolTable} {e : Expr} {b : Bound.Expr} :
    ExprBinds expected t e b u → b.core.type = b.type
  | .grouping _ inners => by
    have inner := coreType inners
    exact inner
  | .literal .. | .ident .. | .binary .. | .unary .. | .step .. | .assign .. | .update .. |
    .call .. | .function .. | .object .. | .member .. => rfl

structure Shape.Plain (shape : Shape) : Prop where
  members : ∀ m ∈ shape.members, m.type.Declared
  index : shape.index = []

theorem Shape.Plain.add {shape : Shape} {key : PropertyName} {type : Ty} (plain : shape.Plain)
    (declared : type.Declared) : (shape.addMember key type false).Plain := by
  refine ⟨fun m inside => ?_, plain.index⟩
  rcases insertedMember inside with rfl | ⟨inside, -⟩
  · exact declared
  · exact plain.members m inside

mutual

theorem exprSimple {expected : Option Ty} {t u : SymbolTable} {e : Expr} {b : Bound.Expr} :
    ExprBinds expected t e b u → e.functionFree → t.Declares → b.type.Simple
  | .literal mark value, _, _ => by
    cases value with
    | none => exact .declared (.primitive .none)
    | _ => exact .literal _
  | .ident mark found, _, declares => .declared (declares.found found)
  | .binary mark lefts rights resolved, free, declares => by
    rw [Expr.functionFree, Bool.and_eq_true] at free
    have left := exprSimple lefts free.1 declares
    have right := exprSimple rights free.2 (declares.same (exprVars lefts))
    obtain ⟨p, -, same⟩ := Operators.binarySimple resolved left right
    exact .declared (same ▸ .primitive p)
  | .unary mark operands resolved, free, declares => by
    rw [Expr.functionFree] at free
    obtain ⟨p, -, same⟩ := Operators.unarySimple resolved (exprSimple operands free declares)
    exact .declared (same ▸ .primitive p)
  | .step mark _ found _ resolved, _, declares => by
    obtain ⟨p, -, same⟩ := Operators.stepSimple resolved (declares.found found)
    exact .declared (same ▸ .primitive p)
  | .assign mark found _ values, free, declares => by
    rw [Expr.functionFree] at free
    have value := exprSimple values free declares
    exact value
  | .update mark found _ values resolved, free, declares => by
    rw [Expr.functionFree] at free
    obtain ⟨p, -, same⟩ := Operators.binarySimple resolved (.declared (declares.found found))
      (exprSimple values free declares)
    exact .declared (same ▸ .primitive p)
  | .object mark listed, free, declares => by
    rw [Expr.functionFree] at free
    obtain ⟨plain, -, -⟩ := propertiesSimple listed free declares ⟨nofun, rfl⟩
    change Ty.Simple (Shape.type _)
    rw [Shape.type, plain.index]
    exact .declared (.interface plain.members)
  | .member mark objects keys read, free, declares => by
    rw [Expr.functionFree, Bool.and_eq_true] at free
    have object := exprSimple objects free.1 declares
    obtain ⟨name, members, m, same, inside, -, rfl⟩ := keyReads free.2 keys object read
    rw [same] at object
    cases object with
    | declared declared =>
      cases declared with
      | interface held => exact .declared (held m inside)
      | builtin signature => cases signature
  | .grouping mark inners, free, declares => by
    rw [Expr.functionFree] at free
    have inner := exprSimple inners free declares
    exact inner
  | .call .., free, _ => by rw [Expr.functionFree] at free; cases free
  | .function .., free, _ => by rw [Expr.functionFree] at free; cases free

theorem propertiesSimple {expected : Option Ty} {shape last : Shape} {t u : SymbolTable}
    {properties : List Property} {properties' : List Bound.Property} :
    PropertiesBind expected shape t properties properties' last u →
    propertiesFunctionFree properties → t.Declares → shape.Plain →
    last.Plain ∧ last.members = Bound.gathered shape.members properties' ∧
      ∀ p ∈ properties', ∃ k, p.key.Named k
  | .nil, _, _, plain => ⟨plain, by rw [Bound.gathered], nofun⟩
  | .cons keys values added others, free, declares, plain => by
    rw [propertiesFunctionFree, Bool.and_eq_true, Bool.and_eq_true] at free
    obtain ⟨⟨written, free⟩, freeRest⟩ := free
    have before := declares.same (keyVars keys)
    obtain ⟨k, named, rfl⟩ := keyAdds written keys added
    have value := exprSimple values free before
    obtain ⟨plain, members, all⟩ := propertiesSimple others freeRest
      (before.same (exprVars values)) (plain.add value.widened)
    refine ⟨plain, ?_, List.forall_mem_cons.mpr ⟨⟨k, named⟩, all⟩⟩
    rw [members, Bound.gathered, named.1, coreType values]
    rfl

end

theorem annotationDeclared {t u : SymbolTable} {span : Span} {type : TypeExpr}
    {annotated : Option Ty} (primitive : type.isPrimitive)
    (resolved : ( resolveAnnotation span (some type)).Yields t annotated u) :
    ∃ p, annotated = some (.primitive p) := by
  match type with
  | .named name [] =>
    rw [TypeExpr.isPrimitive] at primitive
    obtain ⟨p, named⟩ := Option.isSome_iff_exists.mp primitive
    have other : name ≠ "any" := by
      rintro rfl
      cases named
    rw [ resolveAnnotation, resolveType, if_neg other, named] at resolved
    exact ⟨p, resolved.pure⟩

theorem letDeclared {t u v : SymbolTable} {mark : Mark} {name : String} {mutable : Bool}
    {type : Option TypeExpr} {annotated : Option Ty} {init : Expr} {init' : Bound.Expr}
    (free : (Stmt.letDecl mark name mutable type (some init)).functionFree) (declares : t.Declares)
    (resolved : ( resolveAnnotation mark.span type).Yields t annotated u)
    (inits : ExprBinds annotated t init init' v) :
    init.functionFree ∧ (annotated.getD init'.type.widen).Declared := by
  cases type with
  | none =>
    rw [Stmt.functionFree] at free
    cases resolved.pure
    exact ⟨free, (exprSimple inits free declares).widened⟩
  | some type =>
    rw [Stmt.functionFree, Bool.and_eq_true] at free
    obtain ⟨p, rfl⟩ := annotationDeclared free.1 resolved
    exact ⟨free.2, .primitive p⟩

theorem stmtDeclares {t u : SymbolTable} {s : Stmt} {s' : Bound.Stmt} (binds : StmtBinds t s s' u)
    (free : s.functionFree) (declares : t.Declares) : u.Declares := by
  cases binds with
  | initialized mark name mutable resolved inits =>
    exact (declares.same (exprVars inits)).define (letDeclared free declares resolved inits).2
  | branch _ conditions thens =>
    exact declares.same ((blockVars thens).trans (exprVars conditions))
  | choice _ conditions thens elses =>
    simp only [Stmt.functionFree, Bool.and_eq_true] at free
    exact declares.same ((branchVars (Stmt.freeClosed free.1.2 free.2) elses).trans
      ((blockVars thens).trans (exprVars conditions)))
  | loop _ conditions bodies =>
    exact declares.same ((blockVars bodies).trans (exprVars conditions))
  | block bodies => exact declares.same (blockVars bodies)
  | expr _ values => exact declares.same (exprVars values)
  | uninitialized | functionDecl | typeAlias | bare | ret => rw [Stmt.functionFree] at free; cases free

end Quill
