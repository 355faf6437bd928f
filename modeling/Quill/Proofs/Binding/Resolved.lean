import Quill.Bind

/-! Operators of bound trees. Binding gives every operator the row that its table has for the types
of its operands, or none where the table has none. -/
namespace Quill

namespace Bound

mutual

def Expr.Resolved : Expr → Prop
  | .literal .. | .ident .. => True
  | .binary _ op row left right =>
    row = Operators.resolveBinary op left.type right.type ∧ left.Resolved ∧ right.Resolved
  | .unary _ op row operand => row = Operators.resolveUnary op operand.type ∧ operand.Resolved
  | .step _ op _ resolved =>
    ∀ row symbol, resolved = some (row, symbol) → Operators.resolveStep op symbol.type = some row
  | .assign _ _ op target value =>
    (∀ t, target = some t →
      t.row = op.bind fun op => Operators.resolveBinary op t.symbol.type value.type) ∧
      value.Resolved
  | .call _ callee args => callee.Resolved ∧ argsResolved args
  | .function _ params _ body => paramsResolved params ∧ body.Resolved
  | .object _ properties => propertiesResolved properties
  | .member _ base key => base.Resolved ∧ key.Resolved
  | .grouping _ inner => inner.Resolved

def argsResolved : List Arg → Prop
  | [] => True
  | .mk _ value _ :: rest => value.Resolved ∧ argsResolved rest

def paramsResolved : List Param → Prop
  | [] => True
  | .mk _ none :: rest => paramsResolved rest
  | .mk _ (some default) :: rest => default.Resolved ∧ paramsResolved rest

def Key.Resolved : Key → Prop
  | .known _ => True
  | .computed key => key.Resolved

def propertiesResolved : List Property → Prop
  | [] => True
  | .mk key value _ :: rest => key.Resolved ∧ value.Resolved ∧ propertiesResolved rest

def Stmt.Resolved : Stmt → Prop
  | .letDecl _ _ none | .typeAlias _ | .ret _ none => True
  | .letDecl _ _ (some value) | .ret _ (some value) | .expr _ value => value.Resolved
  | .functionDecl _ _ params _ body => paramsResolved params ∧ body.Resolved
  | .ifElse _ condition thenBranch none => condition.Resolved ∧ thenBranch.Resolved
  | .ifElse _ condition thenBranch (some elseBranch) =>
    condition.Resolved ∧ thenBranch.Resolved ∧ elseBranch.Resolved
  | .whileLoop _ condition body => condition.Resolved ∧ body.Resolved
  | .block body => body.Resolved

def Block.Resolved : Block → Prop
  | .mk _ _ body => stmtsResolved body

def stmtsResolved : List Stmt → Prop
  | [] => True
  | s :: rest => s.Resolved ∧ stmtsResolved rest

end

end Bound

namespace Binder

theorem onward {α β : Type} {b : Binder α} {f : α → Binder β} {s s' : BindState} {a : α}
    (first : b s = (a, s')) : (b >>= f) s = f a s' := by
  change f (b s).1 (b s).2 = _
  rw [first]

def Gives {α : Type} (b : Binder α) (P : α → Prop) : Prop := ∀ s, P (b s).1

variable {α β : Type} {P : α → Prop} {Q : β → Prop}

theorem Gives.pure {a : α} (holds : P a) : Binder.Gives (Pure.pure a) P := fun _ => holds

theorem Gives.any (b : Binder α) : Binder.Gives b fun _ => True := fun _ => trivial

theorem Gives.bind {b : Binder α} {f : α → Binder β} (first : Binder.Gives b P)
    (next : ∀ a, P a → Binder.Gives (f a) Q) : Binder.Gives (b >>= f) Q :=
  fun s => next _ (first s) _

end Binder

open Binder (Gives)

theorem bindStepResolved (mark : Mark) (op : StepOp) (name : String) :
    Gives (bindStep mark op name) Bound.Expr.Resolved := by
  have failed : (Bound.Expr.step ⟨mark, .any⟩ op name none).Resolved := fun _ _ none => nomatch none
  refine .bind (.any _) fun found _ => ?_
  cases found with
  | none => exact .pure failed
  | some symbol =>
    refine .bind (.any _) fun _ _ => ?_
    cases row : Operators.resolveStep op symbol.type with
    | none => exact .bind (.any _) fun _ _ => .pure failed
    | some row =>
      refine .pure fun row' symbol' same => ?_
      cases same
      exact ‹_›

theorem bindBinaryResolved (mark : Mark) (op : BinaryOp) {left right : Bound.Expr}
    (lefts : left.Resolved) (rights : right.Resolved) :
    Gives (bindBinary mark op left right) Bound.Expr.Resolved := by
  unfold bindBinary
  cases row : Operators.resolveBinary op left.type right.type with
  | none => exact .bind (.any _) fun _ _ => .pure ⟨row.symm, lefts, rights⟩
  | some _ => exact .pure ⟨row.symm, lefts, rights⟩

theorem bindUnaryResolved (mark : Mark) (op : UnaryOp) {operand : Bound.Expr}
    (resolved : operand.Resolved) :
    Gives (bindUnary mark op operand) Bound.Expr.Resolved := by
  unfold bindUnary
  cases row : Operators.resolveUnary op operand.type with
  | none => exact .bind (.any _) fun _ _ => .pure ⟨row.symm, resolved⟩
  | some _ => exact .pure ⟨row.symm, resolved⟩

theorem bindAssignResolved (mark : Mark) (name : String) (op : Option BinaryOp)
    (found : Option VarSymbol) {value : Bound.Expr} (resolved : value.Resolved) :
    Gives (bindAssign mark name op found value) Bound.Expr.Resolved := by
  have failed : (Bound.Expr.assign ⟨mark, .any⟩ name op none value).Resolved :=
    ⟨fun _ none => (nomatch none), resolved⟩
  cases found with
  | none => exact .pure failed
  | some symbol =>
    refine .bind (.any _) fun _ _ => ?_
    cases op with
    | none =>
      refine .pure ⟨fun t same => ?_, resolved⟩
      cases same
      rfl
    | some op =>
      cases row : Operators.resolveBinary op symbol.type value.type with
      | none =>
        simp only [row]
        exact .bind (.any _) fun _ _ => .pure failed
      | some _ =>
        simp only [row]
        refine .pure ⟨fun t same => ?_, resolved⟩
        cases same
        exact row.symm

mutual

theorem bindExprResolved (expected : Option Ty) :
    (e : Expr) → Gives (bindExpr expected e) Bound.Expr.Resolved
  | .literal _ _ => by
    rw [bindExpr]
    exact .pure trivial
  | .ident _ _ => by
    rw [bindExpr]
    exact .bind (.any _) fun _ _ => .pure trivial
  | .binary mark op left right => by
    rw [bindExpr]
    exact (bindExprResolved none left).bind fun _ lefts =>
      (bindExprResolved none right).bind fun _ rights => bindBinaryResolved mark op lefts rights
  | .unary mark op operand => by
    rw [bindExpr]
    exact (bindExprResolved none operand).bind fun _ resolved => bindUnaryResolved mark op resolved
  | .step mark op name _ => by
    rw [bindExpr]
    exact bindStepResolved mark op name
  | .assign mark name op value => by
    rw [bindExpr]
    exact .bind (.any _) fun found _ => (bindExprResolved _ value).bind fun _ resolved =>
      bindAssignResolved mark name op found resolved
  | .call _ callee args => by
    rw [bindExpr]
    refine (bindExprResolved none callee).bind fun _ callees => .bind (.any _) fun types _ => ?_
    exact (bindArgsResolved types.1 args).bind fun _ given => .pure ⟨callees, given⟩
  | .function _ params _ body => by
    rw [bindExpr]
    refine .bind (.any _) fun _ _ => .bind (.any _) fun _ _ => ?_
    refine (bindParamsResolved body.mark.span params).bind fun _ defaults => ?_
    exact (bindBlockResolved body).bind fun _ bodies => .bind (.any _) fun _ _ =>
      .pure ⟨defaults, bodies⟩
  | .object _ properties => by
    rw [bindExpr]
    exact (bindPropertiesResolved expected .empty properties).bind fun _ resolved => .pure resolved
  | .member _ object key => by
    rw [bindExpr]
    refine (bindExprResolved none object).bind fun _ objects => ?_
    exact (bindKeyResolved key).bind fun _ keys => .bind (.any _) fun _ _ => .pure ⟨objects, keys⟩
  | .grouping _ inner => by
    rw [bindExpr]
    exact (bindExprResolved expected inner).bind fun _ resolved => .pure resolved

theorem bindArgsResolved (types : List Ty) :
    (args : List Arg) → Gives (bindArgs types args) Bound.argsResolved
  | [] => by
    rw [bindArgs]
    exact .pure trivial
  | .mk _ value :: rest => by
    rw [bindArgs]
    exact (bindExprResolved _ value).bind fun _ values =>
      (bindArgsResolved _ rest).bind fun _ others => .pure ⟨values, others⟩

theorem bindParamsResolved (span : Span) :
    (params : List Param) → Gives (bindParams span params) Bound.paramsResolved
  | [] => by
    rw [bindParams]
    exact .pure trivial
  | .mk _ _ none :: rest => by
    rw [bindParams]
    exact .bind (.any _) fun _ _ => .bind (.any _) fun _ _ =>
      (bindParamsResolved span rest).bind fun _ others => .pure others
  | .mk _ _ (some default) :: rest => by
    rw [bindParams]
    exact .bind (.any _) fun _ _ => (bindExprResolved _ default).bind fun _ defaults =>
      .bind (.any _) fun _ _ => (bindParamsResolved span rest).bind fun _ others =>
        .pure ⟨defaults, others⟩

theorem bindKeyResolved : (key : Key) → Gives (bindKey key) Bound.Key.Resolved
  | .known _ => by
    rw [bindKey]
    exact .pure trivial
  | .computed key => by
    rw [bindKey]
    exact (bindExprResolved none key).bind fun _ resolved => .pure resolved

theorem bindPropertiesResolved (expected : Option Ty) (shape : Shape) :
    (properties : List Property) → Gives (bindProperties expected shape properties)
      fun bound => Bound.propertiesResolved bound.1
  | [] => by
    rw [bindProperties]
    exact .pure trivial
  | .mk key value :: rest => by
    rw [bindProperties]
    refine (bindKeyResolved key).bind fun _ keys => (bindExprResolved _ value).bind fun _ values => ?_
    exact .bind (.any _) fun grown _ => (bindPropertiesResolved expected grown.1 rest).bind
      fun _ others => .pure ⟨keys, values, others⟩

theorem bindStmtResolved : (s : Stmt) → Gives (bindStmt s) Bound.Stmt.Resolved
  | .letDecl _ _ _ _ none => by
    rw [bindStmt]
    exact .bind (.any _) fun _ _ => .bind (.any _) fun _ _ => .bind (.any _) fun _ _ => .pure trivial
  | .letDecl _ _ _ _ (some init) => by
    rw [bindStmt]
    exact .bind (.any _) fun _ _ => (bindExprResolved _ init).bind fun _ resolved =>
      .bind (.any _) fun _ _ => .bind (.any _) fun _ _ => .pure resolved
  | .functionDecl _ _ params _ body => by
    rw [bindStmt]
    refine .bind (.any _) fun _ _ => .bind (.any _) fun _ _ => .bind (.any _) fun _ _ => ?_
    refine .bind (.any _) fun _ _ => (bindParamsResolved _ params).bind fun _ defaults => ?_
    exact (bindBlockResolved body).bind fun _ bodies => .bind (.any _) fun _ _ =>
      .bind (.any _) fun _ _ => .pure ⟨defaults, bodies⟩
  | .typeAlias _ _ _ => by
    rw [bindStmt]
    exact .bind (.any _) fun _ _ => .bind (.any _) fun _ _ => .pure trivial
  | .ifElse _ condition thenBranch none => by
    rw [bindStmt]
    exact (bindExprResolved none condition).bind fun _ conditions =>
      (bindBlockResolved thenBranch).bind fun _ branches => .pure ⟨conditions, branches⟩
  | .ifElse _ condition thenBranch (some elseBranch) => by
    rw [bindStmt]
    exact (bindExprResolved none condition).bind fun _ conditions =>
      (bindBlockResolved thenBranch).bind fun _ branches =>
        (bindStmtResolved elseBranch).bind fun _ others => .pure ⟨conditions, branches, others⟩
  | .whileLoop _ condition body => by
    rw [bindStmt]
    exact (bindExprResolved none condition).bind fun _ conditions =>
      (bindBlockResolved body).bind fun _ bodies => .pure ⟨conditions, bodies⟩
  | .ret _ none => by
    rw [bindStmt]
    exact .pure trivial
  | .ret _ (some value) => by
    rw [bindStmt]
    exact (bindExprResolved none value).bind fun _ resolved => .pure resolved
  | .block body => by
    rw [bindStmt]
    exact (bindBlockResolved body).bind fun _ resolved => .pure resolved
  | .expr _ value => by
    rw [bindStmt]
    exact (bindExprResolved none value).bind fun _ resolved => .pure resolved

theorem bindBlockResolved : (b : Block) → Gives (bindBlock b) Bound.Block.Resolved
  | .mk _ body => by
    rw [bindBlock]
    exact .bind (.any _) fun _ _ => (bindStmtsResolved body).bind fun _ resolved =>
      .bind (.any _) fun _ _ => .pure resolved

theorem bindStmtsResolved : (body : List Stmt) → Gives (bindStmts body) Bound.stmtsResolved
  | [] => by
    rw [bindStmts]
    exact .pure trivial
  | s :: rest => by
    rw [bindStmts]
    exact (bindStmtResolved s).bind fun _ first =>
      (bindStmtsResolved rest).bind fun _ others => .pure ⟨first, others⟩

end

theorem bindResolved (program : Program) : Bound.stmtsResolved (bind program).1 :=
  bindStmtsResolved program _

end Quill
