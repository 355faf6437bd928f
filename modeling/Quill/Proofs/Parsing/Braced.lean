import Quill.Syntax

/-! What follows an `else` in a parsed program is a block or a further `if`, at whatever depth. -/
namespace Quill

def Stmt.isBranch : Stmt → Bool
  | .block _ | .ifElse .. => true
  | _ => false

def Stmt.Closed : Stmt → Prop
  | .block _ | .ifElse _ _ _ none => True
  | .ifElse _ _ _ (some elseBranch) => elseBranch.Closed
  | _ => False

mutual

def Expr.Braced : Expr → Prop
  | .literal .. | .ident .. | .step .. => True
  | .binary _ _ left right => left.Braced ∧ right.Braced
  | .unary _ _ operand => operand.Braced
  | .assign _ _ _ value => value.Braced
  | .call _ callee args => callee.Braced ∧ argsBraced args
  | .function _ params _ body => paramsBraced params ∧ body.Braced
  | .object _ properties => propertiesBraced properties
  | .member _ object key => object.Braced ∧ key.Braced
  | .grouping _ inner => inner.Braced

def argsBraced : List Arg → Prop
  | [] => True
  | .mk _ value :: rest => value.Braced ∧ argsBraced rest

def paramsBraced : List Param → Prop
  | [] => True
  | .mk _ _ none :: rest => paramsBraced rest
  | .mk _ _ (some default) :: rest => default.Braced ∧ paramsBraced rest

def Key.Braced : Key → Prop
  | .known _ => True
  | .computed key => key.Braced

def propertiesBraced : List Property → Prop
  | [] => True
  | .mk key value :: rest => key.Braced ∧ value.Braced ∧ propertiesBraced rest

def Stmt.Braced : Stmt → Prop
  | .letDecl _ _ _ _ none | .typeAlias .. | .ret _ none => True
  | .letDecl _ _ _ _ (some value) | .ret _ (some value) | .expr _ value => value.Braced
  | .functionDecl _ _ params _ body => paramsBraced params ∧ body.Braced
  | .ifElse _ condition thenBranch none => condition.Braced ∧ thenBranch.Braced
  | .ifElse _ condition thenBranch (some elseBranch) =>
    condition.Braced ∧ thenBranch.Braced ∧ elseBranch.isBranch ∧ elseBranch.Braced
  | .whileLoop _ condition body => condition.Braced ∧ body.Braced
  | .block body => body.Braced

def Block.Braced : Block → Prop
  | .mk _ body => stmtsBraced body

def stmtsBraced : List Stmt → Prop
  | [] => True
  | s :: rest => s.Braced ∧ stmtsBraced rest

end

theorem Stmt.Braced.closed {s : Stmt} (branch : s.isBranch) (braced : s.Braced) : s.Closed := by
  match s with
  | .block _ | .ifElse _ _ _ none => rw [Stmt.Closed]; trivial
  | .ifElse _ _ _ (some elseBranch) =>
    rw [Stmt.Closed]
    exact closed braced.2.2.1 braced.2.2.2
  | .letDecl .. | .functionDecl .. | .typeAlias .. | .whileLoop .. | .ret .. | .expr .. =>
    cases branch

end Quill
