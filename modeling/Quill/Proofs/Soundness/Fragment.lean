import Quill.Proofs.Parsing.Braced
import Quill.Ty

/-! Programs without functions: of declarations, blocks, branches, loops and expressions over
variables, operators and objects whose keys are written out. -/
namespace Quill

def TypeExpr.isPrimitive : TypeExpr → Bool
  | .named name [] => (Primitive.ofName? name).isSome
  | _ => false

def Expr.isLiteral : Expr → Bool
  | .literal .. => true
  | _ => false

def Key.isWritten : Key → Bool
  | .known _ => true
  | .computed key => key.isLiteral

mutual

def Expr.functionFree : Expr → Bool
  | .literal .. | .ident .. | .step .. => true
  | .binary _ _ left right => left.functionFree && right.functionFree
  | .unary _ _ value | .assign _ _ _ value | .grouping _ value => value.functionFree
  | .object _ properties => propertiesFunctionFree properties
  | .member _ object key => object.functionFree && key.isWritten
  | .call .. | .function .. => false

def propertiesFunctionFree : List Property → Bool
  | [] => true
  | .mk key value :: rest => key.isWritten && value.functionFree && propertiesFunctionFree rest

end

mutual

def Stmt.functionFree : Stmt → Bool
  | .letDecl _ _ _ none (some init) => init.functionFree
  | .letDecl _ _ _ (some type) (some init) => type.isPrimitive && init.functionFree
  | .ifElse _ condition thenBranch none => condition.functionFree && thenBranch.functionFree
  | .ifElse _ condition thenBranch (some elseBranch) =>
    condition.functionFree && thenBranch.functionFree && elseBranch.isBranch &&
      elseBranch.functionFree
  | .whileLoop _ condition body => condition.functionFree && body.functionFree
  | .block body => body.functionFree
  | .expr _ value => value.functionFree
  | .letDecl _ _ _ _ none | .functionDecl .. | .typeAlias .. | .ret .. => false

def Block.functionFree : Block → Bool
  | .mk _ body => stmtsFunctionFree body

def stmtsFunctionFree : List Stmt → Bool
  | [] => true
  | s :: rest => s.functionFree && stmtsFunctionFree rest

end

theorem Stmt.freeClosed {s : Stmt} (branch : s.isBranch) (free : s.functionFree) : s.Closed := by
  match s with
  | .block _ | .ifElse _ _ _ none => rw [Stmt.Closed]; trivial
  | .ifElse _ _ _ (some elseBranch) =>
    simp only [Stmt.functionFree, Bool.and_eq_true] at free
    rw [Stmt.Closed]
    exact freeClosed free.1.2 free.2
  | .letDecl .. | .functionDecl .. | .typeAlias .. | .whileLoop .. | .ret .. | .expr .. => cases branch

end Quill
