import Quill.Token

/-! Syntax trees. Every node carries its place and its number in order of creation, which later
passes use as the key of what they find out about it. -/
namespace Quill

structure Mark where
  -- Numbers are counted without a bound. Those of up to 2 ^ 32 nodes fit in 32 bits.
  id : Nat
  span : Span
  deriving DecidableEq, Repr

inductive BinaryOp where
  | add | sub | mul | div | intDiv | mod | pow
  | bitAnd | bitOr | bitXor | shl | shr
  | and | or
  | eq | notEq | lt | ltEq | gt | gtEq
  deriving DecidableEq, Repr

def BinaryOp.text : BinaryOp → String
  | add => "+"
  | sub => "-"
  | mul => "*"
  | div => "/"
  | intDiv => "//"
  | mod => "%"
  | pow => "**"
  | bitAnd => "&"
  | bitOr => "|"
  | bitXor => "^"
  | shl => "<<"
  | shr => ">>"
  | and => "&&"
  | or => "||"
  | eq => "=="
  | notEq => "!="
  | lt => "<"
  | ltEq => "<="
  | gt => ">"
  | gtEq => ">="

inductive UnaryOp where
  | negate | plus | not | bitNot
  deriving DecidableEq, Repr

def UnaryOp.text : UnaryOp → String
  | negate => "-"
  | plus => "+"
  | not => "!"
  | bitNot => "~"

inductive StepOp where
  | increment | decrement
  deriving DecidableEq, Repr

def StepOp.text : StepOp → String
  | increment => "++"
  | decrement => "--"

mutual

inductive TypeExpr where
  | named (name : String) (args : List TypeExpr)
  | literal (value : Literal)
  | array (element : TypeExpr)
  | function (params : List TypeParam) (ret : TypeExpr)
  | interface (members : List TypeMember)
  | union (members : List TypeExpr)
  | intersection (members : List TypeExpr)
  | parenthesized (inner : TypeExpr)

inductive TypeParam where
  | mk (name : Option String) (type : TypeExpr) (isOptional : Bool)

inductive TypeMember where
  | property (key : PropertyName) (type : TypeExpr) (mutable : Bool)
  | index (key : TypeExpr) (type : TypeExpr)

end

mutual

inductive Expr where
  | literal (mark : Mark) (value : Literal)
  | ident (mark : Mark) (name : String)
  | binary (mark : Mark) (op : BinaryOp) (left right : Expr)
  | unary (mark : Mark) (op : UnaryOp) (operand : Expr)
  -- A step of a variable; `variableMark` marks the name it is written behind.
  | step (mark : Mark) (op : StepOp) (target : String) (variableMark : Mark)
  | assign (mark : Mark) (target : String) (op : Option BinaryOp) (value : Expr)
  | call (mark : Mark) (callee : Expr) (args : List Arg)
  | function (mark : Mark) (params : List Param) (ret : Option TypeExpr) (body : Block)
  | object (mark : Mark) (properties : List Property)
  | member (mark : Mark) (object : Expr) (key : Key)
  | grouping (mark : Mark) (inner : Expr)

inductive Arg where
  | mk (name : Option String) (value : Expr)

inductive Param where
  | mk (name : String) (type : Option TypeExpr) (default : Option Expr)

inductive Key where
  | known (name : PropertyName)
  | computed (key : Expr)

inductive Property where
  | mk (key : Key) (value : Expr)

inductive Stmt where
  | letDecl (mark : Mark) (name : String) (mutable : Bool) (type : Option TypeExpr)
      (init : Option Expr)
  | functionDecl (mark : Mark) (name : String) (params : List Param) (ret : Option TypeExpr)
      (body : Block)
  | typeAlias (mark : Mark) (name : String) (type : TypeExpr)
  | ifElse (mark : Mark) (condition : Expr) (thenBranch : Block) (elseBranch : Option Stmt)
  | whileLoop (mark : Mark) (condition : Expr) (body : Block)
  | ret (mark : Mark) (value : Option Expr)
  | block (body : Block)
  | expr (mark : Mark) (value : Expr)

inductive Block where
  | mk (mark : Mark) (body : List Stmt)

end

instance : Inhabited TypeExpr := ⟨.named "none" []⟩

def Block.mark : Block → Mark
  | .mk mark _ => mark

def Block.body : Block → List Stmt
  | .mk _ body => body

def Expr.mark : Expr → Mark
  | .literal m _ | .ident m _ | .binary m _ _ _ | .unary m _ _ | .step m _ _ _ | .assign m _ _ _
  | .call m _ _ | .function m _ _ _ | .object m _ | .member m _ _ | .grouping m _ => m

def Stmt.mark : Stmt → Mark
  | .letDecl m _ _ _ _ | .functionDecl m _ _ _ _ | .typeAlias m _ _ | .ifElse m _ _ _
  | .whileLoop m _ _ | .ret m _ | .expr m _ => m
  | .block b => b.mark

def Arg.name : Arg → Option String
  | .mk name _ => name

def Arg.value : Arg → Expr
  | .mk _ value => value

def Param.name : Param → String
  | .mk name _ _ => name

def Param.type : Param → Option TypeExpr
  | .mk _ type _ => type

def Param.default : Param → Option Expr
  | .mk _ _ default => default

def Property.key : Property → Key
  | .mk key _ => key

def Property.value : Property → Expr
  | .mk _ value => value

def TypeParam.name : TypeParam → Option String
  | .mk name _ _ => name

def TypeParam.type : TypeParam → TypeExpr
  | .mk _ type _ => type

def TypeParam.isOptional : TypeParam → Bool
  | .mk _ _ isOptional => isOptional

abbrev Program := List Stmt

end Quill
