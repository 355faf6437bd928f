import Quill.Bound
import Quill.Diagnostic
import Quill.Ty.Print

/-! Type checking: the obligations of a bound tree, each a type that has to be assignable to
another. Parts of an expression that could not be resolved are not checked. -/
namespace Quill.Bound

def obligation (code : DiagnosticCode) (span : Span) (what : String) (actual expected : Ty) :
    Diagnostics :=
  if actual.assignableTo expected then []
  else [.error code span
    (what ++ ": type '" ++ actual.text ++ "' is not assignable to '" ++ expected.text ++ "'")]

def checkDefaults (params : List Param) : Diagnostics :=
  params.flatMap fun p =>
    match p.default with
    | some default =>
      obligation .t0006 default.span "default value" default.type p.symbol.type
    | none => []

def checkReturns (declared : Option Ty) (body : Block) : Diagnostics :=
  match declared with
  | none => []
  | some declared =>
    match body.returns with
    | [] => obligation .t0002 body.mark.span "function without return" .none declared
    | returns =>
      returns.flatMap fun r => obligation .t0002 r.mark.span "returned value" r.type declared

def checkArgs (args : List Arg) : Diagnostics :=
  args.flatMap fun a => obligation .t0006 a.value.span "argument" a.value.type a.paramType

def checkProperties (properties : List Property) : Diagnostics :=
  properties.flatMap fun p =>
    obligation .t0004 p.value.span "property value" p.value.type p.expected

def checkAssign (note : Note) (target : Target) : Diagnostics :=
  (match target.row with
    | some row =>
      obligation .t0003 note.mark.span ("operand of '" ++ row.op.text ++ "='")
        target.symbol.type row.left
    | none => []) ++
  obligation .t0005 note.mark.span ("assignment to '" ++ target.symbol.name ++ "'")
    note.type target.symbol.type

mutual

def checkExpr : Expr → Diagnostics
  | .literal .. | .ident .. | .step .. => []
  | .binary _ _ none _ _ | .unary _ _ none _ | .assign _ _ _ none _ => []
  | .binary _ _ (some row) left right =>
    let what := "operand of '" ++ row.op.text ++ "'"
    checkExpr left ++ checkExpr right ++
      obligation .t0003 left.span what left.type row.left ++
      obligation .t0003 right.span what right.type row.right
  | .unary _ _ (some row) operand =>
    checkExpr operand ++
      obligation .t0003 operand.span ("operand of '" ++ row.op.text ++ "'") operand.type
        row.operand
  | .assign note _ _ (some target) value => checkExpr value ++ checkAssign note target
  | .call _ callee args => checkExpr callee ++ checkArgValues args ++ checkArgs args
  | .function _ params declared body =>
    checkParamDefaults params ++ checkBlock body ++ checkDefaults params ++
      checkReturns declared body
  | .object _ properties => checkPropertyValues properties ++ checkProperties properties
  | .member _ object key => checkExpr object ++ checkKey key
  | .grouping _ inner => checkExpr inner

def checkArgValues : List Arg → Diagnostics
  | [] => []
  | .mk _ value _ :: rest => checkExpr value ++ checkArgValues rest

def checkParamDefaults : List Param → Diagnostics
  | [] => []
  | .mk _ none :: rest => checkParamDefaults rest
  | .mk _ (some default) :: rest => checkExpr default ++ checkParamDefaults rest

def checkKey : Key → Diagnostics
  | .known _ => []
  | .computed key => checkExpr key

def checkPropertyValues : List Property → Diagnostics
  | [] => []
  | .mk key value _ :: rest => checkKey key ++ checkExpr value ++ checkPropertyValues rest

def checkStmt : Stmt → Diagnostics
  | .letDecl _ _ none | .typeAlias _ | .ret _ none => []
  | .letDecl _ symbol (some init) =>
    checkExpr init ++
      obligation .t0001 init.span ("initializer of '" ++ symbol.name ++ "'") init.type
        symbol.type
  | .functionDecl _ _ params declared body =>
    checkParamDefaults params ++ checkBlock body ++ checkDefaults params ++
      checkReturns declared body
  | .ifElse _ condition thenBranch none => checkExpr condition ++ checkBlock thenBranch
  | .ifElse _ condition thenBranch (some elseBranch) =>
    checkExpr condition ++ checkBlock thenBranch ++ checkStmt elseBranch
  | .whileLoop _ condition body => checkExpr condition ++ checkBlock body
  | .ret _ (some value) => checkExpr value
  | .block body => checkBlock body
  | .expr _ value => checkExpr value

def checkBlock : Block → Diagnostics
  | .mk _ _ body => checkStmts body

def checkStmts : List Stmt → Diagnostics
  | [] => []
  | s :: rest => checkStmt s ++ checkStmts rest

end

def check (program : Program) : Diagnostics := checkStmts program

end Quill.Bound
