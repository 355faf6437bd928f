import Quill.Bound.Nodes
import Quill.Check
import Quill.Code.Generate
import Quill.Proofs.Binding.Clean
import Mathlib.Data.List.Forall2

/-! Operators through the passes. Binding gives an operator a row that takes its operands, or leaves
it unresolved and reports an error there. So no operand fails its check afterwards, and generation
refuses only what binding has reported. -/
namespace Quill

def Diagnostics.Blames (faults : Diagnostics) (span : Span) : Prop :=
  ∃ f ∈ faults, f.severity = .error ∧ f.span = span

namespace Bound

structure Refused (faults : Diagnostics) (d : Diagnostic) (n : Node) : Prop where
  rejected : ∃ kind symbol, d = (Rejection.unresolved kind symbol).diagnostic n.mark.span
  unresolved : n.outcome = .unresolved
  reported : faults.Blames n.mark.span

def Operandless (checks : Diagnostics) : Prop := ∀ d ∈ checks, d.code ≠ .t0003

structure Accounted (faults : Diagnostics) (nodes : List Node) (rejections checks : Diagnostics) :
    Prop where
  refused : ∃ refused, refused.Sublist nodes ∧ List.Forall₂ (Refused faults) rejections refused
  operandless : Operandless checks

section
variable {faults : Diagnostics} {nodes nodes' : List Node}
variable {rejections rejections' checks checks' : Diagnostics}

theorem Operandless.append (first : Operandless checks) (second : Operandless checks') :
    Operandless (checks ++ checks') :=
  fun d held => (List.mem_append.mp held).elim (first d) (second d)

theorem Operandless.each {α : Type} {items : List α} {check : α → Diagnostics}
    (every : ∀ x, Operandless (check x)) : Operandless (items.flatMap check) := by
  intro d held
  obtain ⟨x, _, held⟩ := List.mem_flatMap.mp held
  exact every x d held

theorem Operandless.obligation {code : DiagnosticCode} (other : code ≠ .t0003) (span : Span)
    (what : String) (actual expected : Ty) :
    Operandless (obligation code span what actual expected) := by
  intro d held
  unfold Bound.obligation at held
  split at held
  · cases held
  · cases List.mem_singleton.mp held
    exact other

theorem obligationMet {actual expected : Ty} (fits : actual.assignableTo expected)
    (code : DiagnosticCode) (span : Span) (what : String) :
    obligation code span what actual expected = [] :=
  if_pos fits

theorem requirementMet {actual expected : Ty} (fits : actual.assignableTo expected) (span : Span)
    (symbol : String) : require span symbol actual expected = [] :=
  if_pos fits

theorem defaultsOperandless (params : List Param) : Operandless (checkDefaults params) := by
  refine .each fun p => ?_
  split
  · exact .obligation (by decide) _ _ _ _
  · exact fun _ held => nomatch held

theorem returnsOperandless (declared : Option Ty) (body : Block) :
    Operandless (checkReturns declared body) := by
  unfold checkReturns
  split
  · exact fun _ held => nomatch held
  split
  · exact .obligation (by decide) _ _ _ _
  · exact .each fun _ => .obligation (by decide) _ _ _ _

theorem argsOperandless (args : List Arg) : Operandless (checkArgs args) :=
  .each fun _ => .obligation (by decide) _ _ _ _

theorem propertiesOperandless (properties : List Property) :
    Operandless (checkProperties properties) :=
  .each fun _ => .obligation (by decide) _ _ _ _

theorem refusedEach {refused : List Node} (each : List.Forall₂ (Refused faults) rejections refused)
    {d : Diagnostic} (held : d ∈ rejections) : ∃ n, Refused faults d n := by
  induction each with
  | nil => cases held
  | cons first _ ih =>
    rcases List.mem_cons.mp held with rfl | held
    · exact ⟨_, first⟩
    · exact ih held

namespace Accounted

theorem nil : Accounted faults [] [] [] :=
  ⟨⟨[], .slnil, .nil⟩, fun _ held => nomatch held⟩

theorem append (first : Accounted faults nodes rejections checks)
    (second : Accounted faults nodes' rejections' checks') :
    Accounted faults (nodes ++ nodes') (rejections ++ rejections') (checks ++ checks') := by
  obtain ⟨⟨refused, sub, each⟩, checked⟩ := first
  obtain ⟨⟨refused', sub', each'⟩, checked'⟩ := second
  exact ⟨⟨refused ++ refused', sub.append sub', List.rel_append each each'⟩,
    checked.append checked'⟩

theorem behind (parts : Accounted faults nodes rejections checks) (more : List Node) :
    Accounted faults (nodes ++ more) rejections checks := by
  obtain ⟨⟨refused, sub, each⟩, checked⟩ := parts
  exact ⟨⟨refused, sub.trans (List.sublist_append_left nodes more), each⟩, checked⟩

theorem checked (parts : Accounted faults nodes rejections checks) (more : Operandless checks') :
    Accounted faults nodes rejections (checks ++ checks') :=
  ⟨parts.refused, parts.operandless.append more⟩

theorem unchecked (parts : Accounted faults nodes rejections checks) :
    Accounted faults nodes rejections [] :=
  ⟨parts.refused, fun _ held => nomatch held⟩

theorem unresolved {mark : Mark} {type : Option Ty} {children : List Nat}
    (reported : faults.Blames mark.span) (kind symbol : String) :
    Accounted faults (nodes ++ [⟨mark, .unresolved, type, children⟩])
      [(Rejection.unresolved kind symbol).diagnostic mark.span] [] :=
  ⟨⟨_, List.sublist_append_right nodes _, .cons ⟨⟨kind, symbol, rfl⟩, rfl, reported⟩ .nil⟩,
    fun _ held => nomatch held⟩

end Accounted

end

def Expr.Accounted (faults : Diagnostics) (e : Expr) : Prop :=
  Bound.Accounted faults e.nodes e.rejections (checkExpr e)

def Key.Accounted (faults : Diagnostics) (key : Key) : Prop :=
  match key with
  | .known _ => True
  | .computed key => key.Accounted faults

def ArgsAccounted (faults : Diagnostics) (args : List Arg) : Prop :=
  Bound.Accounted faults (argNodes args) (argRejections args) (checkArgValues args)

def ParamsAccounted (faults : Diagnostics) (params : List Param) : Prop :=
  Bound.Accounted faults (paramNodes params) (paramRejections params) (checkParamDefaults params)

def PropertiesAccounted (faults : Diagnostics) (properties : List Property) : Prop :=
  Bound.Accounted faults (propertyNodes properties) (propertyRejections properties)
    (checkPropertyValues properties)

def Stmt.Accounted (faults : Diagnostics) (s : Stmt) : Prop :=
  Bound.Accounted faults s.nodes s.rejections (checkStmt s)

def Block.Accounted (faults : Diagnostics) (b : Block) : Prop :=
  Bound.Accounted faults b.nodes b.rejections (checkBlock b)

def StmtsAccounted (faults : Diagnostics) (body : List Stmt) : Prop :=
  Bound.Accounted faults (stmtNodes body) (stmtRejections body) (checkStmts body)

end Bound

namespace Binder

def Reports {α : Type} (faults : Diagnostics) (b : Binder α) (P : α → Prop) : Prop :=
  ∀ s, (b s).2.diagnostics ⊆ faults → s.diagnostics ⊆ faults ∧ P (b s).1

variable {α β : Type} {faults : Diagnostics} {b : Binder α} {f : α → Binder β}
variable {P P' : α → Prop} {Q : β → Prop}

theorem Reports.pure {a : α} (holds : P a) : Binder.Reports faults (Pure.pure a) P :=
  fun _ known => ⟨known, holds⟩

theorem Reports.bind (first : Binder.Reports faults b P)
    (next : ∀ a, Binder.Reports faults (f a) fun r => P a → Q r) :
    Binder.Reports faults (b >>= f) Q := by
  intro s known
  obtain ⟨between, second⟩ := next (b s).1 (b s).2 known
  obtain ⟨before, holds⟩ := first s between
  exact ⟨before, second holds⟩

theorem Reports.imp (reports : Binder.Reports faults b P) (weaker : ∀ a, P a → P' a) :
    Binder.Reports faults b P' :=
  fun s known => (reports s known).imp_right (weaker _)

theorem Reads.reports (reads : Binder.Reads b) : Binder.Reports faults b fun _ => True := by
  intro s known
  obtain ⟨ds, grown⟩ := reads.grows s
  rw [grown] at known
  exact ⟨fun d held => known (List.mem_append_left ds held), trivial⟩

theorem Reports.past (reads : Binder.Reads b) (next : ∀ a, Binder.Reports faults (f a) Q) :
    Binder.Reports faults (b >>= f) Q :=
  reads.reports.bind fun a => (next a).imp fun _ holds _ => holds

theorem Reports.error (code : DiagnosticCode) (span : Span) (message : String) :
    Binder.Reports faults (error code span message) fun _ => faults.Blames span := by
  intro s known
  refine ⟨fun d held => known (List.mem_append_left _ held), ?_⟩
  exact ⟨_, known (List.mem_append_right s.diagnostics (List.mem_singleton.mpr rfl)), rfl, rfl⟩

theorem Reports.define (name : String) (type : Ty) (mutable : Bool) :
    Binder.Reports faults (define name type mutable) fun _ => True :=
  fun _ known => ⟨known, trivial⟩

theorem Reports.defineType (name : String) (type : Ty) :
    Binder.Reports faults (defineType name type) fun _ => True :=
  fun _ known => ⟨known, trivial⟩

theorem Reports.pushScope : Binder.Reports faults pushScope fun _ => True :=
  fun _ known => ⟨known, trivial⟩

theorem Reports.popScope : Binder.Reports faults popScope fun _ => True :=
  fun _ known => ⟨known, trivial⟩

theorem Reports.lookup (span : Span) (name : String) :
    Binder.Reports faults (lookup span name) fun found =>
      found.isNone → faults.Blames span := by
  refine .past .get fun s => ?_
  dsimp only
  split
  · exact (Reports.error _ _ _).bind fun _ => .pure fun reported _ => reported
  · rename_i found
    exact .pure fun missing => (found missing).elim

end Binder

theorem Operators.binaryTakes {op : BinaryOp} {left right : Ty} {row : BinaryRow}
    (found : resolveBinary op left right = some row) :
    left.assignableTo row.left ∧ right.assignableTo row.right := by
  have fits := List.find?_some found
  simp only [Bool.and_eq_true] at fits
  exact ⟨fits.1.2, fits.2⟩

theorem Operators.unaryTakes {op : UnaryOp} {operand : Ty} {row : UnaryRow}
    (found : resolveUnary op operand = some row) : operand.assignableTo row.operand := by
  have fits := List.find?_some found
  simp only [Bool.and_eq_true] at fits
  exact fits.2

open Binder (Reads Reports)

theorem mutableReads (span : Span) (symbol : VarSymbol) :
    Reads (Binder.requireMutable span symbol) := by
  unfold Binder.requireMutable
  split
  · exact .pure _
  · exact .error _ _ _

theorem declaredReads (mark : Mark) (name : String) (annotated : Option Ty)
    (init : Option Bound.Expr) : Reads (declaredType mark name annotated init) := by
  unfold declaredType
  split
  · exact .pure _
  · exact .pure _
  · exact (Reads.report _).bind fun _ => .pure _

section
variable (faults : Diagnostics)

theorem bindStepAccounted (mark : Mark) (op : StepOp) (name : String) :
    Reports faults (bindStep mark op name) (Bound.Expr.Accounted faults) := by
  have failed (reported : faults.Blames mark.span) :
      (Bound.Expr.step ⟨mark, .any⟩ op name none).Accounted faults :=
    .unresolved reported _ _
  unfold bindStep
  refine (Reports.lookup _ _).bind fun found => ?_
  cases found with
  | none => exact .pure fun missing => failed (missing rfl)
  | some symbol =>
    refine .past (mutableReads _ _) fun _ => ?_
    cases Operators.resolveStep op symbol.type with
    | none => exact (Reports.error _ _ _).bind fun _ => .pure fun reported _ => failed reported
    | some row => exact .pure fun _ => Bound.Accounted.nil.behind _

theorem bindBinaryAccounted (mark : Mark) (op : BinaryOp) (left right : Bound.Expr) :
    Reports faults (bindBinary mark op left right) fun b =>
      right.Accounted faults → left.Accounted faults → b.Accounted faults := by
  unfold bindBinary
  cases resolved : Operators.resolveBinary op left.type right.type with
  | none =>
    refine (Reports.error _ _ _).bind fun _ => .pure fun reported _ _ => ?_
    exact .unresolved reported _ _
  | some row =>
    refine .pure fun rights lefts => ?_
    obtain ⟨leftFits, rightFits⟩ := Operators.binaryTakes resolved
    unfold Bound.Expr.Accounted at lefts rights ⊢
    rw [Bound.Expr.nodes, Bound.Expr.rejections, Bound.checkExpr, Bound.requirementMet leftFits,
      Bound.requirementMet rightFits, Bound.obligationMet leftFits, Bound.obligationMet rightFits]
    simp only [List.nil_append, List.append_nil]
    exact (lefts.append rights).behind _

theorem bindUnaryAccounted (mark : Mark) (op : UnaryOp) (operand : Bound.Expr) :
    Reports faults (bindUnary mark op operand) fun b =>
      operand.Accounted faults → b.Accounted faults := by
  unfold bindUnary
  cases resolved : Operators.resolveUnary op operand.type with
  | none =>
    refine (Reports.error _ _ _).bind fun _ => .pure fun reported _ => ?_
    exact .unresolved reported _ _
  | some row =>
    refine .pure fun operands => ?_
    have fits := Operators.unaryTakes resolved
    unfold Bound.Expr.Accounted at operands ⊢
    rw [Bound.Expr.nodes, Bound.Expr.rejections, Bound.checkExpr, Bound.requirementMet fits,
      Bound.obligationMet fits, List.append_nil]
    exact operands.behind _

theorem bindAssignAccounted (mark : Mark) (name : String) (op : Option BinaryOp)
    (found : Option VarSymbol) (value : Bound.Expr) :
    Reports faults (bindAssign mark name op found value) fun b => value.Accounted faults →
      (found.isNone → faults.Blames mark.span) → b.Accounted faults := by
  have failed (op : BinaryOp) (reported : faults.Blames mark.span) :
      (Bound.Expr.assign ⟨mark, .any⟩ name (some op) none value).Accounted faults :=
    .unresolved reported _ _
  unfold bindAssign
  cases found with
  | none =>
    refine .pure fun values missing => ?_
    cases op with
    | none =>
      unfold Bound.Expr.Accounted at values ⊢
      rw [Bound.Expr.nodes, Bound.Expr.rejections, Bound.checkExpr]
      exact (values.behind _).unchecked
    | some op => exact failed op (missing rfl)
  | some symbol =>
    refine .past (mutableReads _ _) fun _ => ?_
    cases op with
    | none =>
      refine .pure fun values _ => ?_
      unfold Bound.Expr.Accounted at values ⊢
      rw [Bound.Expr.nodes, Bound.Expr.rejections, Bound.checkExpr]
      exact (values.behind _).checked (.obligation (by decide) _ _ _ _)
    | some op =>
      cases resolved : Operators.resolveBinary op symbol.type value.type with
      | none =>
        simp only [resolved]
        exact (Reports.error _ _ _).bind fun _ => .pure fun reported _ _ => failed op reported
      | some row =>
        simp only [resolved]
        refine .pure fun values _ => ?_
        obtain ⟨targetFits, valueFits⟩ := Operators.binaryTakes resolved
        unfold Bound.Expr.Accounted at values ⊢
        rw [Bound.Expr.nodes, Bound.Expr.rejections, Bound.checkExpr,
          Bound.requirementMet targetFits, Bound.requirementMet valueFits, Bound.checkAssign]
        simp only [Bound.obligationMet targetFits]
        exact (values.behind _).checked (.obligation (by decide) _ _ _ _)

mutual

theorem bindExprAccounted (expected : Option Ty) :
    (e : Expr) → Reports faults (bindExpr expected e) (Bound.Expr.Accounted faults)
  | .literal _ _ => by
    rw [bindExpr]
    exact .pure (Bound.Accounted.nil.behind _)
  | .ident _ _ => by
    rw [bindExpr]
    exact (Reports.lookup _ _).bind fun _ => .pure fun _ => Bound.Accounted.nil.behind _
  | .binary mark op left right => by
    rw [bindExpr]
    exact (bindExprAccounted none left).bind fun _ => (bindExprAccounted none right).bind fun _ =>
      bindBinaryAccounted faults mark op _ _
  | .unary mark op operand => by
    rw [bindExpr]
    exact (bindExprAccounted none operand).bind fun _ => bindUnaryAccounted faults mark op _
  | .step mark op name _ => by
    rw [bindExpr]
    exact bindStepAccounted faults mark op name
  | .assign mark name op value => by
    rw [bindExpr]
    exact (Reports.lookup _ _).bind fun found => (bindExprAccounted _ value).bind fun _ =>
      bindAssignAccounted faults mark name op found _
  | .call mark callee args => by
    rw [bindExpr]
    refine (bindExprAccounted none callee).bind fun callee' => ?_
    refine .past (calleeReads _ _ _) fun called => ?_
    refine (bindArgsAccounted called.1 args).bind fun args' => .pure fun given callees => ?_
    unfold Bound.Expr.Accounted at callees ⊢
    rw [Bound.Expr.nodes, Bound.Expr.rejections, Bound.checkExpr]
    exact ((callees.append given).behind _).checked (Bound.argsOperandless args')
  | .function _ params ret body => by
    rw [bindExpr]
    refine .past (annotationReads _ ret) fun declared => Reports.pushScope.bind fun _ => ?_
    refine (bindParamsAccounted body.mark.span params).bind fun params' => ?_
    refine (bindBlockAccounted body).bind fun body' => Reports.popScope.bind fun _ => ?_
    refine .pure fun _ bodies defaults _ => ?_
    unfold Bound.Expr.Accounted
    rw [Bound.Expr.nodes, Bound.Expr.rejections, Bound.checkExpr]
    exact (((defaults.append bodies).behind _).checked (Bound.defaultsOperandless params')).checked
      (Bound.returnsOperandless declared body')
  | .object _ properties => by
    rw [bindExpr]
    refine (bindPropertiesAccounted expected .empty properties).bind fun listed => ?_
    refine .pure fun given => ?_
    unfold Bound.Expr.Accounted
    rw [Bound.Expr.nodes, Bound.Expr.rejections, Bound.checkExpr]
    exact (given.behind _).checked (Bound.propertiesOperandless listed.1)
  | .member _ object key => by
    rw [bindExpr]
    refine (bindExprAccounted none object).bind fun object' => ?_
    refine (bindKeyAccounted key).bind fun key' => ?_
    refine .past (memberReads _ _ _) fun type => .pure fun keys objects => ?_
    unfold Bound.Expr.Accounted at objects ⊢
    cases key' with
    | known name =>
      rw [Bound.Expr.nodes, Bound.Expr.rejections, Bound.checkExpr, Bound.Key.nodes, Bound.checkKey,
        List.append_nil, List.append_nil]
      exact objects.behind _
    | computed key' =>
      rw [Bound.Expr.nodes, Bound.Expr.rejections, Bound.checkExpr]
      exact (objects.append keys).behind _
  | .grouping _ inner => by
    rw [bindExpr]
    refine (bindExprAccounted expected inner).bind fun inner' => .pure fun inners => ?_
    unfold Bound.Expr.Accounted at inners ⊢
    rw [Bound.Expr.nodes, Bound.Expr.rejections, Bound.checkExpr]
    exact inners.behind _

theorem bindArgsAccounted (types : List Ty) :
    (args : List Arg) → Reports faults (bindArgs types args) (Bound.ArgsAccounted faults)
  | [] => by
    rw [bindArgs]
    exact .pure .nil
  | .mk _ value :: rest => by
    rw [bindArgs]
    exact (bindExprAccounted _ value).bind fun _ => (bindArgsAccounted _ rest).bind fun _ =>
      .pure fun others values => values.append others

theorem bindParamsAccounted (span : Span) :
    (params : List Param) → Reports faults (bindParams span params) (Bound.ParamsAccounted faults)
  | [] => by
    rw [bindParams]
    exact .pure .nil
  | .mk _ type none :: rest => by
    rw [bindParams]
    exact .past (annotationReads _ type) fun _ => (Reports.define _ _ _).bind fun _ =>
      (bindParamsAccounted span rest).bind fun _ => .pure fun others _ => others
  | .mk _ type (some default) :: rest => by
    rw [bindParams]
    exact .past (annotationReads _ type) fun _ => (bindExprAccounted _ default).bind fun _ =>
      (Reports.define _ _ _).bind fun _ => (bindParamsAccounted span rest).bind fun _ =>
        .pure fun others _ defaults => defaults.append others

theorem bindKeyAccounted :
    (key : Key) → Reports faults (bindKey key) (Bound.Key.Accounted faults)
  | .known _ => by
    rw [bindKey]
    exact .pure trivial
  | .computed key => by
    rw [bindKey]
    exact (bindExprAccounted none key).bind fun _ => .pure fun keys => keys

theorem bindPropertiesAccounted (expected : Option Ty) (shape : Shape) :
    (properties : List Property) → Reports faults (bindProperties expected shape properties)
      fun bound => Bound.PropertiesAccounted faults bound.1
  | [] => by
    rw [bindProperties]
    exact .pure .nil
  | .mk key value :: rest => by
    rw [bindProperties]
    refine (bindKeyAccounted key).bind fun key' => (bindExprAccounted _ value).bind fun _ => ?_
    refine .past (propertyReads _ _ _ _) fun grown => ?_
    refine (bindPropertiesAccounted expected grown.1 rest).bind fun _ => ?_
    refine .pure fun others values keys => ?_
    cases key' with
    | known name => exact values.append others
    | computed key' => exact (keys.append values).append others

theorem bindStmtAccounted :
    (s : Stmt) → Reports faults (bindStmt s) (Bound.Stmt.Accounted faults)
  | .letDecl mark name _ type none => by
    rw [bindStmt]
    exact .past (annotationReads _ type) fun _ => .past (declaredReads mark name _ _) fun _ =>
      (Reports.define _ _ _).bind fun _ => .pure fun _ => Bound.Accounted.nil.behind _
  | .letDecl mark name _ type (some init) => by
    rw [bindStmt]
    refine .past (annotationReads _ type) fun _ => (bindExprAccounted _ init).bind fun init' => ?_
    refine .past (declaredReads mark name _ _) fun _ => (Reports.define _ _ _).bind fun _ => ?_
    refine .pure fun _ inits => ?_
    unfold Bound.Expr.Accounted at inits
    unfold Bound.Stmt.Accounted
    rw [Bound.Stmt.nodes, Bound.Stmt.rejections, Bound.checkStmt]
    exact (inits.behind _).checked (.obligation (by decide) _ _ _ _)
  | .functionDecl mark _ params ret body => by
    rw [bindStmt]
    refine .past (annotationReads _ ret) fun declared => .past (signatureReads _ params) fun _ => ?_
    refine (Reports.define _ _ _).bind fun _ => Reports.pushScope.bind fun _ => ?_
    refine (bindParamsAccounted body.mark.span params).bind fun params' => ?_
    refine (bindBlockAccounted body).bind fun body' => Reports.popScope.bind fun _ => ?_
    refine (Reports.define _ _ _).bind fun _ => .pure fun _ _ bodies defaults _ _ => ?_
    unfold Bound.Stmt.Accounted
    rw [Bound.Stmt.nodes, Bound.Stmt.rejections, Bound.checkStmt]
    exact (((defaults.append bodies).behind _).checked (Bound.defaultsOperandless params')).checked
      (Bound.returnsOperandless declared body')
  | .typeAlias _ _ written => by
    rw [bindStmt]
    exact .past (typeReads _ written) fun _ => (Reports.defineType _ _).bind fun _ =>
      .pure fun _ => Bound.Accounted.nil.behind _
  | .ifElse _ condition thenBranch none => by
    rw [bindStmt]
    refine (bindExprAccounted none condition).bind fun _ => (bindBlockAccounted thenBranch).bind
      fun _ => .pure fun thens conditions => ?_
    unfold Bound.Stmt.Accounted
    rw [Bound.Stmt.nodes, Bound.Stmt.rejections, Bound.checkStmt]
    exact (conditions.append thens).behind _
  | .ifElse _ condition thenBranch (some elseBranch) => by
    rw [bindStmt]
    refine (bindExprAccounted none condition).bind fun _ => (bindBlockAccounted thenBranch).bind
      fun _ => (bindStmtAccounted elseBranch).bind fun _ => .pure fun elses thens conditions => ?_
    unfold Bound.Stmt.Accounted
    rw [Bound.Stmt.nodes, Bound.Stmt.rejections, Bound.checkStmt]
    exact ((conditions.append thens).append elses).behind _
  | .whileLoop _ condition body => by
    rw [bindStmt]
    refine (bindExprAccounted none condition).bind fun _ => (bindBlockAccounted body).bind fun _ =>
      .pure fun bodies conditions => ?_
    unfold Bound.Stmt.Accounted
    rw [Bound.Stmt.nodes, Bound.Stmt.rejections, Bound.checkStmt]
    exact (conditions.append bodies).behind _
  | .ret _ none => by
    rw [bindStmt]
    exact .pure (Bound.Accounted.nil.behind _)
  | .ret _ (some value) => by
    rw [bindStmt]
    refine (bindExprAccounted none value).bind fun _ => .pure fun values => ?_
    unfold Bound.Stmt.Accounted
    rw [Bound.Stmt.nodes, Bound.Stmt.rejections, Bound.checkStmt]
    exact values.behind _
  | .block body => by
    rw [bindStmt]
    refine (bindBlockAccounted body).bind fun _ => .pure fun bodies => ?_
    unfold Bound.Stmt.Accounted
    rw [Bound.Stmt.nodes, Bound.Stmt.rejections, Bound.checkStmt]
    exact bodies
  | .expr _ value => by
    rw [bindStmt]
    refine (bindExprAccounted none value).bind fun _ => .pure fun values => ?_
    unfold Bound.Stmt.Accounted
    rw [Bound.Stmt.nodes, Bound.Stmt.rejections, Bound.checkStmt]
    exact values.behind _

theorem bindBlockAccounted :
    (b : Block) → Reports faults (bindBlock b) (Bound.Block.Accounted faults)
  | .mk _ body => by
    rw [bindBlock]
    exact Reports.pushScope.bind fun _ => (bindStmtsAccounted body).bind fun _ =>
      Reports.popScope.bind fun _ => .pure fun _ bodies _ => bodies.behind _

theorem bindStmtsAccounted :
    (body : List Stmt) → Reports faults (bindStmts body) (Bound.StmtsAccounted faults)
  | [] => by
    rw [bindStmts]
    exact .pure .nil
  | s :: rest => by
    rw [bindStmts]
    exact (bindStmtAccounted s).bind fun _ => (bindStmtsAccounted rest).bind fun _ =>
      .pure fun others first => first.append others

end

end

theorem boundAccounted (program : Program) :
    Bound.StmtsAccounted (bind program).2 (bind program).1 :=
  (bindStmtsAccounted _ program ⟨.initial, []⟩ (List.Subset.refl _)).2

/-- Whatever is wrong with a program, no operand fails its check, generation rejects nothing for the
types of operands and nothing but nodes that were left unresolved for an error, and so nothing at
all where binding reports no error. -/
theorem operatorsAgree (program : Program) :
    (∀ d ∈ Bound.check (bind program).1, d.code ≠ .t0003) ∧
    (∀ d ∈ (Bound.generate (bind program).1).2, d.code ≠ .g0002) ∧
    (∃ refused : List Bound.Node, refused.Sublist (Bound.stmtNodes (bind program).1) ∧
      List.Forall₂ (Bound.Refused (bind program).2) (Bound.generate (bind program).1).2 refused) ∧
    ((bind program).2.hasErrors = false → (Bound.generate (bind program).1).2 = []) := by
  obtain ⟨⟨refused, sub, each⟩, operandless⟩ := boundAccounted program
  have answered {d : Diagnostic} (held : d ∈ (Bound.generate (bind program).1).2) :
      ∃ n, Bound.Refused (bind program).2 d n := Bound.refusedEach each held
  refine ⟨operandless, fun d held => ?_, ⟨refused, sub, each⟩, fun clean => ?_⟩
  · obtain ⟨n, ⟨kind, symbol, rfl⟩, -, -⟩ := answered held
    exact nofun
  · refine List.eq_nil_iff_forall_not_mem.mpr fun d held => ?_
    obtain ⟨n, -, -, f, reported, severe, -⟩ := answered held
    have wrong : (bind program).2.hasErrors = true :=
      List.any_eq_true.mpr ⟨f, reported, decide_eq_true severe⟩
    rw [clean] at wrong
    cases wrong

end Quill
