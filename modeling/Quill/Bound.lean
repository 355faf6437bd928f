import Quill.Operators
import Quill.Symbols

/-! Bound trees: syntax trees in which every name and every operator is resolved, or marked as
unresolved, and every expression has a type. -/
namespace Quill.Bound

structure Note where
  mark : Mark
  type : Ty

structure Target where
  symbol : VarSymbol
  row : Option BinaryRow

mutual

/-- A missing symbol, row or target marks an expression that could not be resolved; its type is
`any`. -/
inductive Expr where
  | literal (note : Note) (value : Literal)
  | ident (note : Note) (name : String) (symbol : Option VarSymbol)
  | binary (note : Note) (op : BinaryOp) (row : Option BinaryRow) (left right : Expr)
  | unary (note : Note) (op : UnaryOp) (row : Option UnaryRow) (operand : Expr)
  | step (note : Note) (op : StepOp) (name : String) (resolved : Option (StepRow × VarSymbol))
  | assign (note : Note) (name : String) (op : Option BinaryOp) (target : Option Target)
      (value : Expr)
  | call (note : Note) (callee : Expr) (args : List Arg)
  | function (note : Note) (params : List Param) (declared : Option Ty) (body : Block)
  | object (note : Note) (properties : List Property)
  | member (note : Note) (object : Expr) (key : Key)
  | grouping (note : Note) (inner : Expr)

inductive Arg where
  | mk (name : Option String) (value : Expr) (paramType : Ty)

inductive Param where
  | mk (symbol : VarSymbol) (default : Option Expr)

inductive Key where
  | known (name : PropertyName)
  | computed (key : Expr)

inductive Property where
  | mk (key : Key) (value : Expr) (expected : Ty)

inductive Stmt where
  | letDecl (mark : Mark) (symbol : VarSymbol) (init : Option Expr)
  | functionDecl (mark : Mark) (symbol : VarSymbol) (params : List Param) (declared : Option Ty)
      (body : Block)
  | typeAlias (mark : Mark)
  | ifElse (mark : Mark) (condition : Expr) (thenBranch : Block) (elseBranch : Option Stmt)
  | whileLoop (mark : Mark) (condition : Expr) (body : Block)
  | ret (mark : Mark) (value : Option Expr)
  | block (body : Block)
  | expr (mark : Mark) (value : Expr)

inductive Block where
  | mk (mark : Mark) (type : Ty) (body : List Stmt)

end

abbrev Program := List Stmt

def Expr.note : Expr → Note
  | .literal n _ | .ident n _ _ | .binary n _ _ _ _ | .unary n _ _ _ | .step n _ _ _
  | .assign n _ _ _ _ | .call n _ _ | .function n _ _ _ | .object n _ | .member n _ _
  | .grouping n _ => n

def Expr.mark (e : Expr) : Mark := e.note.mark

def Expr.type (e : Expr) : Ty := e.note.type

def Expr.span (e : Expr) : Span := e.note.mark.span

def Block.mark : Block → Mark
  | .mk mark _ _ => mark

def Block.type : Block → Ty
  | .mk _ type _ => type

def Block.body : Block → List Stmt
  | .mk _ _ body => body

def Stmt.mark : Stmt → Mark
  | .letDecl m _ _ | .functionDecl m _ _ _ _ | .typeAlias m | .ifElse m _ _ _
  | .whileLoop m _ _ | .ret m _ | .expr m _ => m
  | .block b => b.mark

def Arg.value : Arg → Expr
  | .mk _ value _ => value

def Arg.paramType : Arg → Ty
  | .mk _ _ paramType => paramType

def Param.symbol : Param → VarSymbol
  | .mk symbol _ => symbol

def Param.default : Param → Option Expr
  | .mk _ default => default

def Property.key : Property → Key
  | .mk key _ _ => key

def Property.value : Property → Expr
  | .mk _ value _ => value

def Property.expected : Property → Ty
  | .mk _ _ expected => expected

structure Return where
  mark : Mark
  type : Ty

mutual

def Stmt.returns : Stmt → List Return
  | .ret m none => [⟨m, .none⟩]
  | .ret m (some value) => [⟨m, value.type⟩]
  | .ifElse _ _ thenBranch none => thenBranch.returns
  | .ifElse _ _ thenBranch (some elseBranch) => thenBranch.returns ++ elseBranch.returns
  | .whileLoop _ _ body => body.returns
  | .block body => body.returns
  | .letDecl .. | .functionDecl .. | .typeAlias .. | .expr .. => []

def Block.returns : Block → List Return
  | .mk _ _ body => returnsOf body

def returnsOf : List Stmt → List Return
  | [] => []
  | s :: rest => s.returns ++ returnsOf rest

end

def returnedType (body : List Stmt) : Ty := .unionOf ((returnsOf body).map (·.type))

end Quill.Bound
