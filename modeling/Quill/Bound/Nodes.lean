import Quill.Bound

/-! The flat view of bound trees: what each syntax node was bound to, by its number. -/
namespace Quill.Bound

inductive Outcome where
  | unresolved
  | literal
  | variable (symbol : VarSymbol)
  | letDecl (symbol : VarSymbol)
  | function (symbol : Option VarSymbol) (params : List VarSymbol) (declared : Option Ty)
      (returns : List Nat)
  | typeAlias
  | block
  | ifElse
  | whileLoop
  | ret
  | exprStmt
  | binary (row : BinaryRow)
  | unary (row : UnaryRow)
  | step (row : StepRow) (symbol : VarSymbol)
  | assign (target : Target)
  | call (paramTypes : List Ty)
  | object (expected : List Ty)
  | member
  | grouping

structure Node where
  mark : Mark
  outcome : Outcome
  type : Option Ty
  children : List Nat

def Expr.id (e : Expr) : Nat := e.mark.id

def Key.ids : Key → List Nat
  | .known _ => []
  | .computed key => [key.id]

def Property.ids (p : Property) : List Nat := p.key.ids ++ [p.value.id]

def functionNode (mark : Mark) (type : Ty) (symbol : Option VarSymbol) (params : List Param)
    (declared : Option Ty) (body : Block) : Node :=
  let returns := body.returns.map (·.mark.id)
  ⟨mark, .function symbol (params.map Param.symbol) declared returns, some type,
    params.filterMap (fun p => p.default.map Expr.id) ++ [body.mark.id]⟩

def Expr.node (e : Expr) : Node :=
  let found (outcome : Outcome) (children : List Nat) := ⟨e.mark, outcome, some e.type, children⟩
  match e with
  | .literal .. => found .literal []
  | .ident _ _ (some symbol) => found (.variable symbol) []
  | .binary _ _ (some row) left right => found (.binary row) [left.id, right.id]
  | .unary _ _ (some row) operand => found (.unary row) [operand.id]
  | .step _ _ _ (some (row, symbol)) => found (.step row symbol) []
  | .assign _ _ _ (some target) value => found (.assign target) [value.id]
  | .call _ callee args =>
    found (.call (args.map Arg.paramType)) (callee.id :: args.map fun a => a.value.id)
  | .function note params declared body =>
    functionNode note.mark note.type none params declared body
  | .object _ properties =>
    found (.object (properties.map Property.expected)) (properties.flatMap Property.ids)
  | .member _ base key => found .member (base.id :: key.ids)
  | .grouping _ inner => found .grouping [inner.id]
  | .ident _ _ none | .binary _ _ none _ _ | .unary _ _ none _ | .step _ _ _ none
  | .assign _ _ _ none _ => found .unresolved []

def Stmt.node : Stmt → Node
  | .letDecl m symbol init => ⟨m, .letDecl symbol, none, (init.map Expr.id).toList⟩
  | .functionDecl m symbol params declared body =>
    functionNode m symbol.type (some symbol) params declared body
  | .typeAlias m => ⟨m, .typeAlias, none, []⟩
  | .ifElse m condition thenBranch elseBranch =>
    ⟨m, .ifElse, none,
      [condition.id, thenBranch.mark.id] ++ (elseBranch.map fun s => s.mark.id).toList⟩
  | .whileLoop m condition body => ⟨m, .whileLoop, none, [condition.id, body.mark.id]⟩
  | .ret m value => ⟨m, .ret, some ((value.map Expr.type).getD .none), (value.map Expr.id).toList⟩
  | .block (.mk m type body) => ⟨m, .block, some type, body.map fun s => s.mark.id⟩
  | .expr m value => ⟨m, .exprStmt, none, [value.id]⟩

mutual

def Expr.nodes (e : Expr) : List Node :=
  (match e with
    | .literal .. | .ident .. | .step .. => []
    | .binary _ _ _ left right => left.nodes ++ right.nodes
    | .unary _ _ _ operand => operand.nodes
    | .assign _ _ _ _ value => value.nodes
    | .call _ callee args => callee.nodes ++ argNodes args
    | .function _ params _ body => paramNodes params ++ body.nodes
    | .object _ properties => propertyNodes properties
    | .member _ base key => base.nodes ++ key.nodes
    | .grouping _ inner => inner.nodes) ++ [e.node]

def argNodes : List Arg → List Node
  | [] => []
  | .mk _ value _ :: rest => value.nodes ++ argNodes rest

def paramNodes : List Param → List Node
  | [] => []
  | .mk _ none :: rest => paramNodes rest
  | .mk _ (some default) :: rest => default.nodes ++ paramNodes rest

def Key.nodes : Key → List Node
  | .known _ => []
  | .computed key => key.nodes

def propertyNodes : List Property → List Node
  | [] => []
  | .mk key value _ :: rest => key.nodes ++ value.nodes ++ propertyNodes rest

def Stmt.nodes (s : Stmt) : List Node :=
  match s with
  | .letDecl _ _ none | .typeAlias _ | .ret _ none => [s.node]
  | .letDecl _ _ (some e) | .ret _ (some e) | .expr _ e => e.nodes ++ [s.node]
  | .functionDecl _ _ params _ body => paramNodes params ++ body.nodes ++ [s.node]
  | .ifElse _ condition thenBranch none => condition.nodes ++ thenBranch.nodes ++ [s.node]
  | .ifElse _ condition thenBranch (some elseBranch) =>
    condition.nodes ++ thenBranch.nodes ++ elseBranch.nodes ++ [s.node]
  | .whileLoop _ condition body => condition.nodes ++ body.nodes ++ [s.node]
  | .block body => body.nodes

def Block.nodes : Block → List Node
  | .mk m type body => stmtNodes body ++ [⟨m, .block, some type, body.map fun s => s.mark.id⟩]

def stmtNodes : List Stmt → List Node
  | [] => []
  | s :: rest => s.nodes ++ stmtNodes rest

end

theorem Expr.nodeInside {e : Expr} : e.node ∈ e.nodes := by
  cases e <;> (rw [nodes]; exact List.mem_append_right _ List.mem_cons_self)

theorem Expr.nodeType (e : Expr) : e.node.type = some e.type := by
  cases e with
  | literal | call | object | member | grouping | function => rfl
  | ident _ _ symbol => cases symbol <;> rfl
  | binary _ _ row => cases row <;> rfl
  | unary _ _ row => cases row <;> rfl
  | step _ _ _ resolved => cases resolved <;> rfl
  | assign _ _ _ target => cases target <;> rfl

theorem Expr.nodeMark (e : Expr) : e.node.mark = e.mark := by
  cases e with
  | literal | call | object | member | grouping | function => rfl
  | ident _ _ symbol => cases symbol <;> rfl
  | binary _ _ row => cases row <;> rfl
  | unary _ _ row => cases row <;> rfl
  | step _ _ _ resolved => cases resolved <;> rfl
  | assign _ _ _ target => cases target <;> rfl

end Quill.Bound
