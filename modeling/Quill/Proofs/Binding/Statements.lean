import Quill.Proofs.Binding.Resolved

/-! Statements of bound trees. Binding gives each statement one of its own kind, with returns where
the statement has them. -/
namespace Quill

mutual

def Stmt.Returns : Stmt → Prop
  | .ret .. => True
  | .ifElse _ _ thenBranch none => thenBranch.Returns
  | .ifElse _ _ thenBranch (some elseBranch) => thenBranch.Returns ∨ elseBranch.Returns
  | .whileLoop _ _ body => body.Returns
  | .block body => body.Returns
  | .letDecl .. | .functionDecl .. | .typeAlias .. | .expr .. => False

def Block.Returns : Block → Prop
  | .mk _ body => stmtsReturn body

def stmtsReturn : List Stmt → Prop
  | [] => False
  | s :: rest => s.Returns ∨ stmtsReturn rest

end

def Stmt.isExpression : Stmt → Bool
  | .expr .. => true
  | _ => false

def Bound.Stmt.isExpression : Bound.Stmt → Bool
  | .expr .. => true
  | _ => false

def Program.endsInExpression (p : Program) : Bool := (p.getLast?.map Stmt.isExpression).getD false

open Binder (Gives)

mutual

theorem bindStmtReturns : (s : Stmt) → ¬ s.Returns → Gives (bindStmt s) fun b => b.returns = []
  | .letDecl _ _ _ _ none, _ => by
    rw [bindStmt]
    exact .bind (.any _) fun _ _ => .bind (.any _) fun _ _ => .bind (.any _) fun _ _ => .pure rfl
  | .letDecl _ _ _ _ (some _), _ => by
    rw [bindStmt]
    exact .bind (.any _) fun _ _ => .bind (.any _) fun _ _ => .bind (.any _) fun _ _ =>
      .bind (.any _) fun _ _ => .pure rfl
  | .functionDecl _ _ _ _ _, _ => by
    rw [bindStmt]
    refine .bind (.any _) fun _ _ => .bind (.any _) fun _ _ => .bind (.any _) fun _ _ => ?_
    refine .bind (.any _) fun _ _ => .bind (.any _) fun _ _ => .bind (.any _) fun _ _ => ?_
    exact .bind (.any _) fun _ _ => .bind (.any _) fun _ _ => .pure rfl
  | .typeAlias _ _ _, _ => by
    rw [bindStmt]
    exact .bind (.any _) fun _ _ => .bind (.any _) fun _ _ => .pure rfl
  | .ifElse _ _ thenBranch none, never => by
    rw [Stmt.Returns] at never
    rw [bindStmt]
    exact .bind (.any _) fun _ _ => (bindBlockReturns thenBranch never).bind fun _ free =>
      .pure free
  | .ifElse _ _ thenBranch (some elseBranch), never => by
    rw [Stmt.Returns, not_or] at never
    rw [bindStmt]
    refine .bind (.any _) fun _ _ => (bindBlockReturns thenBranch never.1).bind fun _ free => ?_
    exact (bindStmtReturns elseBranch never.2).bind fun _ free' =>
      .pure (List.append_eq_nil_iff.mpr ⟨free, free'⟩)
  | .whileLoop _ _ body, never => by
    rw [Stmt.Returns] at never
    rw [bindStmt]
    exact .bind (.any _) fun _ _ => (bindBlockReturns body never).bind fun _ free => .pure free
  | .ret _ _, never => (never trivial).elim
  | .block body, never => by
    rw [Stmt.Returns] at never
    rw [bindStmt]
    exact (bindBlockReturns body never).bind fun _ free => .pure free
  | .expr _ _, _ => by
    rw [bindStmt]
    exact .bind (.any _) fun _ _ => .pure rfl

theorem bindBlockReturns : (b : Block) → ¬ b.Returns → Gives (bindBlock b) fun b => b.returns = []
  | .mk _ body, never => by
    rw [Block.Returns] at never
    rw [bindBlock]
    exact .bind (.any _) fun _ _ => (bindStmtsReturns body never).bind fun _ free =>
      .bind (.any _) fun _ _ => .pure free

theorem bindStmtsReturns : (body : List Stmt) → ¬ stmtsReturn body →
    Gives (bindStmts body) fun b => Bound.returnsOf b = []
  | [], _ => by
    rw [bindStmts]
    exact .pure rfl
  | s :: rest, never => by
    rw [stmtsReturn, not_or] at never
    rw [bindStmts]
    exact (bindStmtReturns s never.1).bind fun _ free => (bindStmtsReturns rest never.2).bind
      fun _ free' => .pure (List.append_eq_nil_iff.mpr ⟨free, free'⟩)

end

theorem bindReturns {program : Program} (never : ¬ stmtsReturn program) :
    Bound.returnsOf (bind program).1 = [] :=
  bindStmtsReturns program never _

theorem bindStmtExpression (s : Stmt) :
    Gives (bindStmt s) fun b => b.isExpression = s.isExpression := by
  cases s with
  | letDecl _ _ _ _ init =>
    cases init with
    | none =>
      rw [bindStmt]
      exact .bind (.any _) fun _ _ => .bind (.any _) fun _ _ => .bind (.any _) fun _ _ => .pure rfl
    | some _ =>
      rw [bindStmt]
      exact .bind (.any _) fun _ _ => .bind (.any _) fun _ _ => .bind (.any _) fun _ _ =>
        .bind (.any _) fun _ _ => .pure rfl
  | functionDecl _ _ _ _ _ =>
    rw [bindStmt]
    refine .bind (.any _) fun _ _ => .bind (.any _) fun _ _ => .bind (.any _) fun _ _ => ?_
    refine .bind (.any _) fun _ _ => .bind (.any _) fun _ _ => .bind (.any _) fun _ _ => ?_
    exact .bind (.any _) fun _ _ => .bind (.any _) fun _ _ => .pure rfl
  | typeAlias _ _ _ =>
    rw [bindStmt]
    exact .bind (.any _) fun _ _ => .bind (.any _) fun _ _ => .pure rfl
  | ifElse _ _ _ elseBranch =>
    cases elseBranch with
    | none =>
      rw [bindStmt]
      exact .bind (.any _) fun _ _ => .bind (.any _) fun _ _ => .pure rfl
    | some _ =>
      rw [bindStmt]
      exact .bind (.any _) fun _ _ => .bind (.any _) fun _ _ => .bind (.any _) fun _ _ => .pure rfl
  | whileLoop _ _ _ =>
    rw [bindStmt]
    exact .bind (.any _) fun _ _ => .bind (.any _) fun _ _ => .pure rfl
  | ret _ value =>
    cases value with
    | none =>
      rw [bindStmt]
      exact .pure rfl
    | some _ =>
      rw [bindStmt]
      exact .bind (.any _) fun _ _ => .pure rfl
  | block _ =>
    rw [bindStmt]
    exact .bind (.any _) fun _ _ => .pure rfl
  | expr _ _ =>
    rw [bindStmt]
    exact .bind (.any _) fun _ _ => .pure rfl

theorem bindStmtsExpressions (body : List Stmt) : Gives (bindStmts body) fun b =>
    b.map Bound.Stmt.isExpression = body.map Stmt.isExpression := by
  induction body with
  | nil =>
    rw [bindStmts]
    exact .pure rfl
  | cons s rest ih =>
    rw [bindStmts]
    refine (bindStmtExpression s).bind fun _ same => ih.bind fun _ others => .pure ?_
    rw [List.map_cons, List.map_cons, same, others]

theorem bindExpressions (program : Program) :
    (bind program).1.map Bound.Stmt.isExpression = program.map Stmt.isExpression :=
  bindStmtsExpressions program _

end Quill
