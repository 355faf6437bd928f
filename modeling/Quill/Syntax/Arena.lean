import Quill.Syntax

/-! The flat view of syntax trees: every node with its children by number, in order of creation.
A step also owns the node of the variable it is written behind, which no other node refers to. -/
namespace Quill

inductive NodeKey where
  | known (name : PropertyName)
  | computed (key : Nat)

structure NodeParam where
  name : String
  type : Option TypeExpr
  default : Option Nat

inductive NodeKind where
  | letDecl (name : String) (mutable : Bool) (type : Option TypeExpr) (init : Option Nat)
  | functionDecl (name : String) (params : List NodeParam) (ret : Option TypeExpr) (body : Nat)
  | typeAlias (name : String) (type : TypeExpr)
  | ifElse (condition thenBranch : Nat) (elseBranch : Option Nat)
  | whileLoop (condition body : Nat)
  | ret (value : Option Nat)
  | block (body : List Nat)
  | exprStmt (value : Nat)
  | literal (value : Literal)
  | ident (name : String)
  | binary (op : BinaryOp) (left right : Nat)
  | unary (op : UnaryOp) (operand : Nat)
  | step (op : StepOp) (target : String)
  | assign (target : String) (op : Option BinaryOp) (value : Nat)
  | call (callee : Nat) (args : List (Option String × Nat))
  | function (params : List NodeParam) (ret : Option TypeExpr) (body : Nat)
  | object (properties : List (NodeKey × Nat))
  | member (object : Nat) (key : NodeKey)
  | grouping (inner : Nat)

namespace NodeKind

def isStatement : NodeKind → Bool
  | letDecl .. | functionDecl .. | typeAlias .. | ifElse .. | whileLoop .. | ret .. | block ..
  | exprStmt .. => true
  | _ => false

def name : NodeKind → String
  | letDecl .. => "let"
  | functionDecl .. => "function declaration"
  | typeAlias .. => "type alias"
  | ifElse .. => "if"
  | whileLoop .. => "while"
  | ret .. => "return"
  | block .. => "block"
  | exprStmt .. => "expression statement"
  | literal .. => "literal"
  | ident .. => "identifier"
  | binary .. => "binary expression"
  | unary .. => "unary expression"
  | step .. => "postfix expression"
  | assign .. => "assignment"
  | call .. => "call"
  | function .. => "function expression"
  | object .. => "object literal"
  | member .. => "member access"
  | grouping .. => "grouping"

end NodeKind

structure Node where
  mark : Mark
  kind : NodeKind

def Expr.id (e : Expr) : Nat := e.mark.id

def Stmt.id (s : Stmt) : Nat := s.mark.id

def Block.id (b : Block) : Nat := b.mark.id

def Key.flat : Key → NodeKey
  | .known name => .known name
  | .computed key => .computed key.id

def Param.flat (p : Param) : NodeParam := ⟨p.name, p.type, p.default.map Expr.id⟩

def Property.flat (p : Property) : NodeKey × Nat := (p.key.flat, p.value.id)

mutual

def Expr.nodes : Expr → List Node
  | .literal m value => [⟨m, .literal value⟩]
  | .ident m name => [⟨m, .ident name⟩]
  | .binary m op left right =>
    left.nodes ++ right.nodes ++ [⟨m, .binary op left.id right.id⟩]
  | .unary m op operand => operand.nodes ++ [⟨m, .unary op operand.id⟩]
  | .step m op target v => [⟨v, .ident target⟩, ⟨m, .step op target⟩]
  | .assign m target op value => value.nodes ++ [⟨m, .assign target op value.id⟩]
  | .call m callee args =>
    callee.nodes ++ argNodes args ++
      [⟨m, .call callee.id (args.map fun a => (a.name, a.value.id))⟩]
  | .function m params ret body =>
    paramNodes params ++ body.nodes ++ [⟨m, .function (params.map Param.flat) ret body.id⟩]
  | .object m properties =>
    propertyNodes properties ++ [⟨m, .object (properties.map Property.flat)⟩]
  | .member m object key => object.nodes ++ key.nodes ++ [⟨m, .member object.id key.flat⟩]
  | .grouping m inner => inner.nodes ++ [⟨m, .grouping inner.id⟩]

def argNodes : List Arg → List Node
  | [] => []
  | .mk _ value :: rest => value.nodes ++ argNodes rest

def paramNodes : List Param → List Node
  | [] => []
  | .mk _ _ none :: rest => paramNodes rest
  | .mk _ _ (some default) :: rest => default.nodes ++ paramNodes rest

def Key.nodes : Key → List Node
  | .known _ => []
  | .computed key => key.nodes

def propertyNodes : List Property → List Node
  | [] => []
  | .mk key value :: rest => key.nodes ++ value.nodes ++ propertyNodes rest

def Stmt.nodes : Stmt → List Node
  | .letDecl m name mutable type none => [⟨m, .letDecl name mutable type none⟩]
  | .letDecl m name mutable type (some init) =>
    init.nodes ++ [⟨m, .letDecl name mutable type (some init.id)⟩]
  | .functionDecl m name params ret body =>
    paramNodes params ++ body.nodes ++
      [⟨m, .functionDecl name (params.map Param.flat) ret body.id⟩]
  | .typeAlias m name type => [⟨m, .typeAlias name type⟩]
  | .ifElse m condition thenBranch none =>
    condition.nodes ++ thenBranch.nodes ++ [⟨m, .ifElse condition.id thenBranch.id none⟩]
  | .ifElse m condition thenBranch (some elseBranch) =>
    condition.nodes ++ thenBranch.nodes ++ elseBranch.nodes ++
      [⟨m, .ifElse condition.id thenBranch.id (some elseBranch.id)⟩]
  | .whileLoop m condition body =>
    condition.nodes ++ body.nodes ++ [⟨m, .whileLoop condition.id body.id⟩]
  | .ret m none => [⟨m, .ret none⟩]
  | .ret m (some value) => value.nodes ++ [⟨m, .ret (some value.id)⟩]
  | .block body => body.nodes
  | .expr m value => value.nodes ++ [⟨m, .exprStmt value.id⟩]

def stmtNodes : List Stmt → List Node
  | [] => []
  | s :: rest => s.nodes ++ stmtNodes rest

def Block.nodes : Block → List Node
  | .mk m body => stmtNodes body ++ [⟨m, .block (body.map Stmt.id)⟩]

end

namespace Program

def nodes (p : Program) : List Node := stmtNodes p

def roots (p : Program) : List Nat := p.map Stmt.id

def spans (p : Program) : List Span := p.nodes.map (·.mark.span)

end Program

end Quill
