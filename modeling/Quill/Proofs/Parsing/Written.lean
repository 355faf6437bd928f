import Quill.Proofs.Parsing.Braced

/-! What parsed programs are made of: every `else` is followed by a block or a further `if`, and
literals, in expressions and in types, are of some kind `L`. -/
namespace Quill

section
variable (L : Literal → Prop)

mutual

def TypeExpr.Written : TypeExpr → Prop
  | .named _ args => typesWritten args
  | .literal value => L value
  | .array element => element.Written
  | .function params ret => typeParamsWritten params ∧ ret.Written
  | .interface members => typeMembersWritten members
  | .union members | .intersection members => typesWritten members
  | .parenthesized inner => inner.Written

def typesWritten : List TypeExpr → Prop
  | [] => True
  | t :: rest => t.Written ∧ typesWritten rest

def typeParamsWritten : List TypeParam → Prop
  | [] => True
  | .mk _ t _ :: rest => t.Written ∧ typeParamsWritten rest

def typeMembersWritten : List TypeMember → Prop
  | [] => True
  | .property _ t _ :: rest => t.Written ∧ typeMembersWritten rest
  | .index key t :: rest => key.Written ∧ t.Written ∧ typeMembersWritten rest

end

def typeWritten (t : Option TypeExpr) : Prop := ∀ e ∈ t, e.Written L

mutual

def Expr.Written : Expr → Prop
  | .literal _ value => L value
  | .ident .. | .step .. => True
  | .binary _ _ left right => left.Written ∧ right.Written
  | .unary _ _ operand => operand.Written
  | .assign _ _ _ value => value.Written
  | .call _ callee args => callee.Written ∧ argsWritten args
  | .function _ params ret body => paramsWritten params ∧ typeWritten L ret ∧ body.Written
  | .object _ properties => propertiesWritten properties
  | .member _ object key => object.Written ∧ key.Written
  | .grouping _ inner => inner.Written

def argsWritten : List Arg → Prop
  | [] => True
  | .mk _ value :: rest => value.Written ∧ argsWritten rest

def paramsWritten : List Param → Prop
  | [] => True
  | .mk _ t none :: rest => typeWritten L t ∧ paramsWritten rest
  | .mk _ t (some default) :: rest => typeWritten L t ∧ default.Written ∧ paramsWritten rest

def Key.Written : Key → Prop
  | .known _ => True
  | .computed key => key.Written

def propertiesWritten : List Property → Prop
  | [] => True
  | .mk key value :: rest => key.Written ∧ value.Written ∧ propertiesWritten rest

def Stmt.Written : Stmt → Prop
  | .letDecl _ _ _ t none => typeWritten L t
  | .letDecl _ _ _ t (some value) => typeWritten L t ∧ value.Written
  | .functionDecl _ _ params ret body => paramsWritten params ∧ typeWritten L ret ∧ body.Written
  | .typeAlias _ _ t => t.Written L
  | .ifElse _ condition thenBranch none => condition.Written ∧ thenBranch.Written
  | .ifElse _ condition thenBranch (some elseBranch) =>
    condition.Written ∧ thenBranch.Written ∧ elseBranch.isBranch ∧ elseBranch.Written
  | .whileLoop _ condition body => condition.Written ∧ body.Written
  | .ret _ none => True
  | .ret _ (some value) | .expr _ value => value.Written
  | .block body => body.Written

def Block.Written : Block → Prop
  | .mk _ body => stmtsWritten body

def stmtsWritten : List Stmt → Prop
  | [] => True
  | s :: rest => s.Written ∧ stmtsWritten rest

end

end

/-! Programs that are written so are braced. -/

variable {L : Literal → Prop}

mutual

theorem exprBraced : (e : Expr) → e.Written L → e.Braced
  | .literal .., _ | .ident .., _ | .step .., _ => trivial
  | .binary _ _ left right, ⟨lefts, rights⟩ => ⟨exprBraced left lefts, exprBraced right rights⟩
  | .unary _ _ e, written | .assign _ _ _ e, written | .grouping _ e, written =>
    exprBraced e written
  | .call _ callee args, ⟨callees, given⟩ => ⟨exprBraced callee callees, argumentsBraced args given⟩
  | .function _ params _ body, ⟨taken, _, bodies⟩ =>
    ⟨parametersBraced params taken, blockBraced body bodies⟩
  | .object _ properties, written => entriesBraced properties written
  | .member _ object key, ⟨objects, keys⟩ => ⟨exprBraced object objects, keyBraced key keys⟩

theorem argumentsBraced : (args : List Arg) → argsWritten L args → argsBraced args
  | [], _ => trivial
  | .mk _ value :: rest, ⟨values, others⟩ => ⟨exprBraced value values, argumentsBraced rest others⟩

theorem parametersBraced : (params : List Param) → paramsWritten L params → paramsBraced params
  | [], _ => trivial
  | .mk _ _ none :: rest, ⟨_, others⟩ => parametersBraced rest others
  | .mk _ _ (some default) :: rest, ⟨_, defaults, others⟩ =>
    ⟨exprBraced default defaults, parametersBraced rest others⟩

theorem keyBraced : (key : Key) → key.Written L → key.Braced
  | .known _, _ => trivial
  | .computed key, written => exprBraced key written

theorem entriesBraced : (properties : List Property) → propertiesWritten L properties →
    propertiesBraced properties
  | [], _ => trivial
  | .mk key value :: rest, ⟨keys, values, others⟩ =>
    ⟨keyBraced key keys, exprBraced value values, entriesBraced rest others⟩

theorem stmtBraced : (s : Stmt) → s.Written L → s.Braced
  | .letDecl _ _ _ _ none, _ | .typeAlias .., _ | .ret _ none, _ => trivial
  | .letDecl _ _ _ _ (some value), ⟨_, written⟩ => exprBraced value written
  | .ret _ (some value), written | .expr _ value, written => exprBraced value written
  | .functionDecl _ _ params _ body, ⟨taken, _, bodies⟩ =>
    ⟨parametersBraced params taken, blockBraced body bodies⟩
  | .ifElse _ condition thenBranch none, ⟨conditions, thens⟩ =>
    ⟨exprBraced condition conditions, blockBraced thenBranch thens⟩
  | .ifElse _ condition thenBranch (some elseBranch), ⟨conditions, thens, branch, elses⟩ =>
    ⟨exprBraced condition conditions, blockBraced thenBranch thens, branch,
      stmtBraced elseBranch elses⟩
  | .whileLoop _ condition body, ⟨conditions, bodies⟩ =>
    ⟨exprBraced condition conditions, blockBraced body bodies⟩
  | .block body, written => blockBraced body written

theorem blockBraced : (b : Block) → b.Written L → b.Braced
  | .mk _ body, written => statementsBraced body written

theorem statementsBraced : (body : List Stmt) → stmtsWritten L body → stmtsBraced body
  | [], _ => trivial
  | s :: rest, ⟨first, others⟩ => ⟨stmtBraced s first, statementsBraced rest others⟩

end

end Quill
