import Quill.Proofs.Binding.Rules

/-! Binding that reports no error follows the rules. An error that is reported stays, so that the
parts of what is bound without errors are. -/
namespace Quill

namespace Diagnostics

theorem cleanAppend {a b : Diagnostics} : (a ++ b : Diagnostics).hasErrors = false ↔
    a.hasErrors = false ∧ b.hasErrors = false := by
  unfold hasErrors
  rw [List.any_append]
  exact Bool.or_eq_false_iff

theorem cleanParts {a b : Diagnostics} (clean : (a ++ b : Diagnostics).hasErrors = false) :
    a.hasErrors = false ∧ b.hasErrors = false :=
  cleanAppend.mp clean

end Diagnostics

namespace Binder

/-- It changes nothing that is known, and takes no diagnostic back. -/
structure Reads {α : Type} (b : Binder α) : Prop where
  symbols (s : BindState) : (b s).2.symbols = s.symbols
  grows (s : BindState) : ∃ ds, (b s).2.diagnostics = s.diagnostics ++ ds

/-- If there is no error behind it, there is none before it, and it leads from what is known to what
it gives and what is known then as said. -/
def Leads {α : Type} (b : Binder α) (P : SymbolTable → α → SymbolTable → Prop) : Prop :=
  ∀ s, (b s).2.diagnostics.hasErrors = false →
    s.diagnostics.hasErrors = false ∧ P s.symbols (b s).1 (b s).2.symbols

section
variable {α β : Type} {b : Binder α} {f : α → Binder β}

theorem Reads.clean (reads : Binder.Reads b) (s : BindState)
    (clean : (b s).2.diagnostics.hasErrors = false) : s.diagnostics.hasErrors = false := by
  obtain ⟨ds, grown⟩ := reads.grows s
  rw [grown] at clean
  exact (Diagnostics.cleanParts clean).1

theorem Reads.pure (a : α) : Binder.Reads (Pure.pure a) :=
  ⟨fun _ => rfl, fun s => ⟨[], (List.append_nil s.diagnostics).symm⟩⟩

theorem Reads.get : Binder.Reads get :=
  ⟨fun _ => rfl, fun s => ⟨[], (List.append_nil s.diagnostics).symm⟩⟩

theorem Reads.bind (first : Binder.Reads b) (next : ∀ a, Binder.Reads (f a)) :
    Binder.Reads (b >>= f) := by
  refine ⟨fun s => ((next _).symbols _).trans (first.symbols s), fun s => ?_⟩
  obtain ⟨before, grown⟩ := first.grows s
  obtain ⟨behind, grown'⟩ := (next (b s).1).grows (b s).2
  rw [grown, List.append_assoc] at grown'
  exact ⟨before ++ behind, grown'⟩

theorem Reads.report (d : Diagnostic) : Binder.Reads (report d) :=
  ⟨fun _ => rfl, fun _ => ⟨[d], rfl⟩⟩

theorem Reads.error (code : DiagnosticCode) (span : Span) (message : String) :
    Binder.Reads (error code span message) :=
  .report _

theorem Reads.each {γ : Type} (items : List γ) {body : γ → Binder Unit}
    (every : ∀ x, Binder.Reads (body x)) :
    Binder.Reads (forIn items PUnit.unit fun x _ => do
      body x
      Pure.pure (ForInStep.yield PUnit.unit)) := by
  induction items with
  | nil => exact .pure _
  | cons x rest ih =>
    rw [List.forIn_cons]
    exact ((every x).bind fun _ => .pure _).bind fun outcome => by
      cases outcome with
      | done _ => exact .pure _
      | yield _ => exact ih

variable {P : SymbolTable → α → SymbolTable → Prop} {Q : α → SymbolTable → β → SymbolTable → Prop}

theorem Leads.imp {P' : SymbolTable → α → SymbolTable → Prop} (leads : Binder.Leads b P)
    (weaker : ∀ t a u, P t a u → P' t a u) : Binder.Leads b P' :=
  fun s clean => (leads s clean).imp_right (weaker _ _ _)

theorem Leads.pure (a : α) : Binder.Leads (Pure.pure a) fun t a' u => a' = a ∧ u = t :=
  fun _ clean => ⟨clean, rfl, rfl⟩

theorem Leads.get : Binder.Leads get fun t s u => s.symbols = t ∧ u = t :=
  fun _ clean => ⟨clean, rfl, rfl⟩

theorem Leads.bind (first : Binder.Leads b P) (next : ∀ a, Binder.Leads (f a) (Q a)) :
    Binder.Leads (b >>= f) fun t r v => ∃ a u, P t a u ∧ Q a u r v := by
  intro s clean
  obtain ⟨between, second⟩ := next (b s).1 (b s).2 clean
  obtain ⟨before, holds⟩ := first s between
  exact ⟨before, _, _, holds, second⟩

theorem Leads.error (code : DiagnosticCode) (span : Span) (message : String) :
    Binder.Leads (error code span message) fun _ _ _ => False := by
  intro s clean
  cases (Diagnostics.cleanParts clean).2

theorem Reads.leads (reads : Binder.Reads b) :
    Binder.Leads b fun t a u => u = t ∧ b.Yields t a t := by
  intro s clean
  have given : b s = ((b s).1, ⟨s.symbols, (b s).2.diagnostics⟩) := by
    rw [← reads.symbols s]
    rfl
  exact ⟨reads.clean s clean, reads.symbols s, s.diagnostics, _, given, clean⟩

end

theorem lookupLeads (span : Span) (name : String) : Binder.Leads (lookup span name)
    fun t found u => u = t ∧ ∃ symbol, t.lookup name = some symbol ∧ found = some symbol := by
  have looked (s : BindState) : Binder.Leads
      (do
        if (s.symbols.lookup name).isNone then
          error .b0001 span ("symbol '" ++ name ++ "' not found")
        return s.symbols.lookup name)
      fun t found u => u = t ∧
        ∃ symbol, s.symbols.lookup name = some symbol ∧ found = some symbol := by
    cases s.symbols.lookup name with
    | none => exact ((Leads.error _ _ _).bind fun _ => .pure _).imp fun _ _ _ ⟨_, _, never, _⟩ =>
        never.elim
    | some symbol => exact (Leads.pure _).imp fun _ _ _ ⟨given, same⟩ => ⟨same, symbol, rfl, given⟩
  refine (Leads.get.bind looked).imp fun t found v ⟨s, u, ⟨known, same⟩, same', rest⟩ => ?_
  exact ⟨same'.trans same, known ▸ rest⟩

theorem mutableLeads (span : Span) (symbol : VarSymbol) :
    Binder.Leads (requireMutable span symbol) fun t _ u => u = t ∧ symbol.mutable = true := by
  unfold requireMutable
  cases mutable : symbol.mutable with
  | true => exact (Leads.pure ()).imp fun _ _ _ same => ⟨same.2, rfl⟩
  | false => exact (Leads.error _ _ _).imp fun _ _ _ never => never.elim

theorem defineLeads (name : String) (type : Ty) (mutable : Bool) :
    Binder.Leads (define name type mutable) fun t symbol u =>
      symbol = (t.define name type mutable false).1 ∧ u = (t.define name type mutable false).2 :=
  fun _ clean => ⟨clean, rfl, rfl⟩

theorem defineTypeLeads (name : String) (type : Ty) :
    Binder.Leads (defineType name type) fun t _ u => u = t.defineType name type :=
  fun _ clean => ⟨clean, rfl⟩

theorem pushLeads : Binder.Leads pushScope fun t _ u => u = t.push := fun _ clean => ⟨clean, rfl⟩

theorem popLeads : Binder.Leads popScope fun t _ u => u = t.pop := fun _ clean => ⟨clean, rfl⟩

end Binder

open Binder (Reads Leads)

theorem indexSignatureReads (span : Span) (shape : Shape) (key type : Ty) :
    Reads (addIndexSignature span shape key type) := by
  unfold addIndexSignature
  split
  · exact .pure _
  · exact .pure _
  · exact (Reads.error _ _ _).bind fun _ => .pure _

mutual

theorem typeReads (span : Span) : (written : TypeExpr) → Reads (resolveType span written)
  | .named name args => by
    rw [resolveType]
    split
    · exact .pure _
    split
    · exact .pure _
    refine Reads.get.bind fun s => ?_
    split
    · exact .pure _
    · exact (typesReads span args).bind fun _ => .pure _
  | .literal _ => by
    rw [resolveType]
    exact .pure _
  | .array element => by
    rw [resolveType]
    exact (typeReads span element).bind fun _ => .pure _
  | .function params ret => by
    rw [resolveType]
    exact (paramsRead span 0 params).bind fun _ => (typeReads span ret).bind fun _ => .pure _
  | .interface members => by
    rw [resolveType]
    exact (membersRead span .empty members).bind fun _ => .pure _
  | .union members => by
    rw [resolveType]
    exact (typesReads span members).bind fun _ => .pure _
  | .intersection members => by
    rw [resolveType]
    exact (typesReads span members).bind fun _ => .pure _
  | .parenthesized inner => by
    rw [resolveType]
    exact (typeReads span inner).bind fun _ => .pure _

theorem typesReads (span : Span) : (written : List TypeExpr) → Reads (resolveTypes span written)
  | [] => by
    rw [resolveTypes]
    exact .pure _
  | t :: rest => by
    rw [resolveTypes]
    exact (typeReads span t).bind fun _ => (typesReads span rest).bind fun _ => .pure _

theorem paramsRead (span : Span) (n : Nat) :
    (params : List TypeParam) → Reads (resolveParams span n params)
  | [] => by
    rw [resolveParams]
    exact .pure _
  | .mk _ t _ :: rest => by
    rw [resolveParams]
    exact (typeReads span t).bind fun _ => (paramsRead span (n + 1) rest).bind fun _ => .pure _

theorem membersRead (span : Span) (shape : Shape) :
    (members : List TypeMember) → Reads (resolveMembers span shape members)
  | [] => by
    rw [resolveMembers]
    exact .pure _
  | .property _ t _ :: rest => by
    rw [resolveMembers]
    exact (typeReads span t).bind fun _ => membersRead span _ rest
  | .index key t :: rest => by
    rw [resolveMembers]
    exact (typeReads span key).bind fun _ => (typeReads span t).bind fun _ =>
      (indexSignatureReads span shape _ _).bind fun _ => membersRead span _ rest

end

theorem annotationReads (span : Span) (written : Option TypeExpr) :
    Reads ( resolveAnnotation span written) := by
  cases written with
  | none => exact .pure _
  | some t => exact (typeReads span t).bind fun _ => .pure _

theorem signatureReads (span : Span) (params : List Param) :
    Reads (resolveSignature span params) := by
  induction params with
  | nil => exact .pure _
  | cons p rest ih =>
    obtain ⟨name, t, default⟩ := p
    exact (annotationReads span t).bind fun _ => ih.bind fun _ => .pure _

theorem matchReads (span : Span) (params : List TyParam) (args : List Arg) :
    Reads (matchCall span params args) := by
  unfold matchCall
  exact (Reads.each _ fun _ => .error _ _ _).bind fun _ =>
    (Reads.each _ fun _ => .error _ _ _).bind fun _ => .pure _

theorem calleeReads (span : Span) (callee : Ty) (args : List Arg) :
    Reads (bindCallee span callee args) := by
  unfold bindCallee
  split
  · exact (matchReads span _ args).bind fun _ => .pure _
  · dsimp only
    split
    · exact .pure _
    · exact (Reads.error _ _ _).bind fun _ => .pure _

theorem propertyReads (span : Span) (shape : Shape) (key : Bound.Key) (value : Ty) :
    Reads (addProperty span shape key value) := by
  unfold addProperty
  split
  · exact .pure _
  split
  · exact .pure _
  · exact (Reads.error _ _ _).bind fun _ => .pure _

theorem memberReads (span : Span) (object : Ty) (key : Bound.Key) :
    Reads (bindMember span object key) := by
  unfold bindMember
  split
  · exact .pure _
  · split
    · exact .pure _
    · exact (Reads.error _ _ _).bind fun _ => .pure _
  · exact (Reads.error _ _ _).bind fun _ => .pure _

theorem stepBinds (expected : Option Ty) (mark : Mark) (op : StepOp) (name : String)
    (variableMark : Mark) : Leads (bindStep mark op name) fun t b u =>
      ExprBinds expected t (.step mark op name variableMark) b u := by
  unfold bindStep
  refine ((Binder.lookupLeads _ _).bind
    (Q := fun found t b u => ∀ symbol, found = some symbol → symbol.mutable = true ∧ u = t ∧
      ∃ row, Operators.resolveStep op symbol.type = some row ∧
        b = .step ⟨mark, resultType [symbol.type] row.operand⟩ op name (some (row, symbol)))
    fun found => ?_).imp ?_
  · cases found with
    | none => exact (Leads.pure _).imp fun _ _ _ _ _ none => nomatch none
    | some symbol =>
      dsimp only
      cases resolved : Operators.resolveStep op symbol.type with
      | none =>
        refine ((Binder.mutableLeads _ _).bind fun _ => (Leads.error _ _ _).bind fun _ =>
          .pure _).imp ?_
        rintro _ _ _ ⟨_, _, _, _, _, never, _⟩
        exact never.elim
      | some row =>
        refine ((Binder.mutableLeads _ _).bind fun _ => .pure _).imp ?_
        rintro t b u ⟨_, _, ⟨same, mutable⟩, given, same'⟩ _ ⟨⟩
        exact ⟨mutable, same'.trans same, row, resolved, given⟩
  · rintro t b u ⟨_, _, ⟨rfl, symbol, found, rfl⟩, rest⟩
    obtain ⟨mutable, rfl, row, resolved, rfl⟩ := rest symbol rfl
    exact .step mark variableMark found mutable resolved

theorem binaryLeads (mark : Mark) (op : BinaryOp) (left right : Bound.Expr) :
    Leads (bindBinary mark op left right) fun t b u => u = t ∧
      ∃ row, Operators.resolveBinary op left.type right.type = some row ∧
        b = .binary ⟨mark, resultType [left.type, right.type] row.result⟩ op (some row) left right := by
  unfold bindBinary
  cases resolved : Operators.resolveBinary op left.type right.type with
  | none => exact ((Leads.error _ _ _).bind fun _ => .pure _).imp fun _ _ _ ⟨_, _, never, _⟩ =>
      never.elim
  | some row => exact (Leads.pure _).imp fun _ _ _ ⟨given, same⟩ => ⟨same, row, rfl, given⟩

theorem unaryLeads (mark : Mark) (op : UnaryOp) (operand : Bound.Expr) :
    Leads (bindUnary mark op operand) fun t b u => u = t ∧
      ∃ row, Operators.resolveUnary op operand.type = some row ∧
        b = .unary ⟨mark, resultType [operand.type] row.result⟩ op (some row) operand := by
  unfold bindUnary
  cases resolved : Operators.resolveUnary op operand.type with
  | none => exact ((Leads.error _ _ _).bind fun _ => .pure _).imp fun _ _ _ ⟨_, _, never, _⟩ =>
      never.elim
  | some row => exact (Leads.pure _).imp fun _ _ _ ⟨given, same⟩ => ⟨same, row, rfl, given⟩

inductive AssignBinds (mark : Mark) (name : String) (symbol : VarSymbol) (value : Bound.Expr) :
    Option BinaryOp → Bound.Expr → Prop where
  | assign : AssignBinds mark name symbol value none
      (.assign ⟨mark, value.type⟩ name none (some ⟨symbol, none⟩) value)
  | update {op : BinaryOp} {row : BinaryRow}
      (resolved : Operators.resolveBinary op symbol.type value.type = some row) :
      AssignBinds mark name symbol value (some op)
        (.assign ⟨mark, resultType [symbol.type, value.type] row.result⟩ name (some op)
          (some ⟨symbol, some row⟩) value)

theorem assignLeads (mark : Mark) (name : String) (op : Option BinaryOp) (symbol : VarSymbol)
    (value : Bound.Expr) : Leads (bindAssign mark name op (some symbol) value) fun t b u =>
      u = t ∧ symbol.mutable = true ∧ AssignBinds mark name symbol value op b := by
  unfold bindAssign
  dsimp only
  cases op with
  | none =>
    refine ((Binder.mutableLeads _ _).bind fun _ => .pure _).imp ?_
    rintro t b u ⟨_, _, ⟨same, mutable⟩, rfl, same'⟩
    exact ⟨same'.trans same, mutable, .assign⟩
  | some op =>
    dsimp only
    cases resolved : Operators.resolveBinary op symbol.type value.type with
    | none =>
      refine ((Binder.mutableLeads _ _).bind fun _ => (Leads.error _ _ _).bind fun _ =>
        .pure _).imp ?_
      rintro _ _ _ ⟨_, _, _, _, _, never, _⟩
      exact never.elim
    | some row =>
      refine ((Binder.mutableLeads _ _).bind fun _ => .pure _).imp ?_
      rintro t b u ⟨_, _, ⟨same, mutable⟩, rfl, same'⟩
      exact ⟨same'.trans same, mutable, .update resolved⟩

theorem typeLeads (mark : Mark) (name : String) (annotated : Option Ty)
    (init : Option Bound.Expr) : Leads (declaredType mark name annotated init) fun t type u =>
      u = t ∧ type = annotated.getD ((init.map fun e => e.type.widen).getD .any) := by
  unfold declaredType
  cases annotated with
  | some type => exact (Leads.pure _).imp fun _ _ _ ⟨given, same⟩ => ⟨same, given⟩
  | none =>
    cases init with
    | some init => exact (Leads.pure _).imp fun _ _ _ ⟨given, same⟩ => ⟨same, given⟩
    | none =>
      refine ((Reads.report _).leads.bind fun _ => .pure _).imp ?_
      rintro t type u ⟨_, _, ⟨same, _⟩, given, same'⟩
      exact ⟨same'.trans same, given⟩

-- By the recursion of the binder, looking back from its end: diagnostics are only added, so where
-- there is no error in the end no step has reported one.
mutual

theorem exprBinds (expected : Option Ty) :
    (e : Expr) → Leads (bindExpr expected e) fun t b u => ExprBinds expected t e b u
  | .literal mark value => by
    rw [bindExpr]
    refine (Leads.pure _).imp ?_
    rintro t b u ⟨rfl, rfl⟩
    exact .literal mark value
  | .ident mark name => by
    rw [bindExpr]
    refine ((Binder.lookupLeads _ _).bind fun _ => .pure _).imp ?_
    rintro t b u ⟨_, _, ⟨rfl, symbol, found, rfl⟩, rfl, rfl⟩
    exact .ident mark found
  | .binary mark op left right => by
    rw [bindExpr]
    refine ((exprBinds none left).bind fun _ => (exprBinds none right).bind fun _ =>
      binaryLeads mark op _ _).imp ?_
    rintro t b u ⟨_, _, lefts, _, _, rights, rfl, row, resolved, rfl⟩
    exact .binary mark lefts rights resolved
  | .unary mark op operand => by
    rw [bindExpr]
    refine ((exprBinds none operand).bind fun _ => unaryLeads mark op _).imp ?_
    rintro t b u ⟨_, _, operands, rfl, row, resolved, rfl⟩
    exact .unary mark operands resolved
  | .step mark op name variableMark => by
    rw [bindExpr]
    exact stepBinds expected mark op name variableMark
  | .assign mark name op value => by
    rw [bindExpr]
    refine ((Binder.lookupLeads _ _).bind (Q := fun found t b u => ∀ symbol, found = some symbol →
      ∃ value', ExprBinds (some symbol.type) t value value' u ∧ symbol.mutable = true ∧
        AssignBinds mark name symbol value' op b) fun found => ?_).imp ?_
    · cases found with
      | none =>
        exact ((exprBinds none value).bind fun _ => (Leads.pure _)).imp fun _ _ _ _ _ none =>
          nomatch none
      | some symbol =>
        refine ((exprBinds (some symbol.type) value).bind fun _ =>
          assignLeads mark name op symbol _).imp ?_
        rintro t b u ⟨value', _, values, rfl, mutable, assigned⟩ _ ⟨⟩
        exact ⟨value', values, mutable, assigned⟩
    · rintro t b u ⟨_, _, ⟨rfl, symbol, found, rfl⟩, rest⟩
      obtain ⟨value', values, mutable, assigned⟩ := rest symbol rfl
      cases assigned with
      | assign => exact .assign mark found mutable values
      | update resolved => exact .update mark found mutable values resolved
  | .call mark callee args => by
    rw [bindExpr]
    refine ((exprBinds none callee).bind fun callee' => (calleeReads _ callee'.type args).leads.bind
      fun called => (argsBind called.1 args).bind fun _ => .pure _).imp ?_
    rintro t b u ⟨_, _, callees, _, _, ⟨rfl, called⟩, _, _, given, rfl, rfl⟩
    exact .call mark callees called given
  | .function mark params ret body => by
    rw [bindExpr]
    refine ((annotationReads _ ret).leads.bind fun _ => Binder.pushLeads.bind fun _ =>
      (paramsBind _ params).bind fun _ => (blockBinds body).bind fun _ => Binder.popLeads.bind
        fun _ => .pure _).imp ?_
    rintro t b u ⟨_, _, ⟨rfl, annotated⟩, _, _, rfl, _, _, taken, _, _, bodies, _, _, rfl, rfl, rfl⟩
    exact .function mark annotated taken bodies
  | .object mark properties => by
    rw [bindExpr]
    refine ((propertiesBind expected .empty properties).bind fun _ => .pure _).imp ?_
    rintro t b u ⟨_, _, listed, rfl, rfl⟩
    exact .object mark listed
  | .member mark object key => by
    rw [bindExpr]
    refine ((exprBinds none object).bind fun object' => (keyBinds key).bind fun key' =>
      (memberReads _ object'.type key').leads.bind fun _ => .pure _).imp ?_
    rintro t b u ⟨_, _, objects, _, _, keys, _, _, ⟨rfl, read⟩, rfl, rfl⟩
    exact .member mark objects keys read
  | .grouping mark inner => by
    rw [bindExpr]
    refine ((exprBinds expected inner).bind fun _ => .pure _).imp ?_
    rintro t b u ⟨_, _, inners, rfl, rfl⟩
    exact .grouping mark inners

theorem argsBind (types : List Ty) :
    (args : List Arg) → Leads (bindArgs types args) fun t b u => ArgsBind types t args b u
  | [] => by
    rw [bindArgs]
    refine (Leads.pure _).imp ?_
    rintro t b u ⟨rfl, rfl⟩
    exact .nil
  | .mk name value :: rest => by
    rw [bindArgs]
    refine ((exprBinds _ value).bind fun _ => (argsBind _ rest).bind fun _ => .pure _).imp ?_
    rintro t b u ⟨_, _, values, _, _, others, rfl, rfl⟩
    exact .cons name values others

theorem paramsBind (span : Span) : (params : List Param) →
    Leads (bindParams span params) fun t b u => ParamsBind span t params b u
  | [] => by
    rw [bindParams]
    refine (Leads.pure _).imp ?_
    rintro t b u ⟨rfl, rfl⟩
    exact .nil
  | .mk name type none :: rest => by
    rw [bindParams]
    refine ((annotationReads _ type).leads.bind fun _ => (Binder.defineLeads _ _ _).bind fun _ =>
      (paramsBind span rest).bind fun _ => .pure _).imp ?_
    rintro t b u ⟨_, _, ⟨rfl, resolved⟩, _, _, ⟨rfl, rfl⟩, _, _, others, rfl, rfl⟩
    exact .required name resolved others
  | .mk name type (some default) :: rest => by
    rw [bindParams]
    refine ((annotationReads _ type).leads.bind fun _ => (exprBinds _ default).bind fun _ =>
      (Binder.defineLeads _ _ _).bind fun _ => (paramsBind span rest).bind fun _ => .pure _).imp ?_
    rintro t b u ⟨_, _, ⟨rfl, resolved⟩, _, _, defaults, _, _, ⟨rfl, rfl⟩, _, _, others, rfl, rfl⟩
    exact .optional name resolved defaults others

theorem keyBinds : (key : Key) → Leads (bindKey key) fun t b u => KeyBinds t key b u
  | .known name => by
    rw [bindKey]
    refine (Leads.pure _).imp ?_
    rintro t b u ⟨rfl, rfl⟩
    exact .known name
  | .computed key => by
    rw [bindKey]
    refine ((exprBinds none key).bind fun _ => .pure _).imp ?_
    rintro t b u ⟨_, _, keys, rfl, rfl⟩
    exact .computed keys

theorem propertiesBind (expected : Option Ty) (shape : Shape) : (properties : List Property) →
    Leads (bindProperties expected shape properties) fun t b u =>
      PropertiesBind expected shape t properties b.1 b.2 u
  | [] => by
    rw [bindProperties]
    refine (Leads.pure _).imp ?_
    rintro t b u ⟨rfl, rfl⟩
    exact .nil
  | .mk key value :: rest => by
    rw [bindProperties]
    refine ((keyBinds key).bind fun _ => (exprBinds _ value).bind fun value' =>
      (propertyReads _ _ _ value'.type.widen).leads.bind fun added =>
        (propertiesBind expected added.1 rest).bind fun _ => .pure _).imp ?_
    rintro t b u ⟨_, _, keys, _, _, values, _, _, ⟨rfl, added⟩, _, _, others, rfl, rfl⟩
    exact .cons keys values added others

theorem stmtBinds : (s : Stmt) → Leads (bindStmt s) fun t b u => StmtBinds t s b u
  | .letDecl mark name mutable type none => by
    rw [bindStmt]
    refine ((annotationReads _ type).leads.bind fun annotated =>
      (typeLeads mark name annotated none).bind fun _ => (Binder.defineLeads _ _ _).bind fun _ =>
        .pure _).imp ?_
    rintro t b u ⟨_, _, ⟨rfl, resolved⟩, _, _, ⟨rfl, rfl⟩, _, _, ⟨rfl, rfl⟩, rfl, rfl⟩
    exact .uninitialized mark name mutable resolved
  | .letDecl mark name mutable type (some init) => by
    rw [bindStmt]
    refine ((annotationReads _ type).leads.bind fun annotated => (exprBinds annotated init).bind
      fun init' => (typeLeads mark name annotated (some init')).bind fun _ =>
        (Binder.defineLeads _ _ _).bind fun _ => .pure _).imp ?_
    rintro t b u ⟨_, _, ⟨rfl, resolved⟩, _, _, inits, _, _, ⟨rfl, rfl⟩, _, _, ⟨rfl, rfl⟩, rfl, rfl⟩
    exact .initialized mark name mutable resolved inits
  | .functionDecl mark name params ret body => by
    rw [bindStmt]
    refine ((annotationReads _ ret).leads.bind fun _ => (signatureReads _ params).leads.bind fun _ =>
      (Binder.defineLeads _ _ _).bind fun _ => Binder.pushLeads.bind fun _ =>
        (paramsBind _ params).bind fun _ => (blockBinds body).bind fun _ => Binder.popLeads.bind
          fun _ => (Binder.defineLeads _ _ _).bind fun _ => .pure _).imp ?_
    rintro t b u ⟨_, _, ⟨rfl, annotated⟩, _, _, ⟨rfl, signed⟩, _, _, ⟨rfl, rfl⟩, _, _, rfl, _, _,
      taken, _, _, bodies, _, _, rfl, _, _, ⟨rfl, rfl⟩, rfl, rfl⟩
    exact .functionDecl mark name annotated signed taken bodies
  | .typeAlias mark name written => by
    rw [bindStmt]
    refine ((typeReads _ written).leads.bind fun _ => (Binder.defineTypeLeads _ _).bind fun _ =>
      .pure _).imp ?_
    rintro t b u ⟨_, _, ⟨rfl, resolved⟩, _, _, rfl, rfl, rfl⟩
    exact .typeAlias mark name resolved
  | .ifElse mark condition thenBranch none => by
    rw [bindStmt]
    refine ((exprBinds none condition).bind fun _ => (blockBinds thenBranch).bind fun _ =>
      .pure _).imp ?_
    rintro t b u ⟨_, _, conditions, _, _, thens, rfl, rfl⟩
    exact .branch mark conditions thens
  | .ifElse mark condition thenBranch (some elseBranch) => by
    rw [bindStmt]
    refine ((exprBinds none condition).bind fun _ => (blockBinds thenBranch).bind fun _ =>
      (stmtBinds elseBranch).bind fun _ => .pure _).imp ?_
    rintro t b u ⟨_, _, conditions, _, _, thens, _, _, elses, rfl, rfl⟩
    exact .choice mark conditions thens elses
  | .whileLoop mark condition body => by
    rw [bindStmt]
    refine ((exprBinds none condition).bind fun _ => (blockBinds body).bind fun _ => .pure _).imp ?_
    rintro t b u ⟨_, _, conditions, _, _, bodies, rfl, rfl⟩
    exact .loop mark conditions bodies
  | .ret mark none => by
    rw [bindStmt]
    refine (Leads.pure _).imp ?_
    rintro t b u ⟨rfl, rfl⟩
    exact .bare mark
  | .ret mark (some value) => by
    rw [bindStmt]
    refine ((exprBinds none value).bind fun _ => .pure _).imp ?_
    rintro t b u ⟨_, _, values, rfl, rfl⟩
    exact .ret mark values
  | .block body => by
    rw [bindStmt]
    refine ((blockBinds body).bind fun _ => .pure _).imp ?_
    rintro t b u ⟨_, _, bodies, rfl, rfl⟩
    exact .block bodies
  | .expr mark value => by
    rw [bindStmt]
    refine ((exprBinds none value).bind fun _ => .pure _).imp ?_
    rintro t b u ⟨_, _, values, rfl, rfl⟩
    exact .expr mark values

theorem blockBinds : (b : Block) → Leads (bindBlock b) fun t b' u => BlockBinds t b b' u
  | .mk mark body => by
    rw [bindBlock]
    refine (Binder.pushLeads.bind fun _ => (stmtsBind body).bind fun _ => Binder.popLeads.bind
      fun _ => .pure _).imp ?_
    rintro t b u ⟨_, _, rfl, _, _, bodies, _, _, rfl, rfl, rfl⟩
    exact .mk mark bodies

theorem stmtsBind : (body : List Stmt) → Leads (bindStmts body) fun t b u => StmtsBind t body b u
  | [] => by
    rw [bindStmts]
    refine (Leads.pure _).imp ?_
    rintro t b u ⟨rfl, rfl⟩
    exact .nil
  | s :: rest => by
    rw [bindStmts]
    refine ((stmtBinds s).bind fun _ => (stmtsBind rest).bind fun _ => .pure _).imp ?_
    rintro t b u ⟨_, _, first, _, _, others, rfl, rfl⟩
    exact .cons first others

end

theorem cleanBinds {program : Program} (clean : (bind program).2.hasErrors = false) :
    ∃ u, StmtsBind .initial program (bind program).1 u :=
  ⟨_, (stmtsBind program ⟨.initial, []⟩ clean).2⟩

end Quill
