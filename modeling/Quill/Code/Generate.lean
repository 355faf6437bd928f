import Quill.Bound
import Quill.Code
import Quill.Diagnostic
import Quill.Ty.Print

/-! Code generation. Every expression leaves one value on the stack and every statement none, but
for the last one of a program: if it is an expression, its value is the result of the program.
An operator that was not resolved is rejected and stands for the value none. -/
namespace Quill

inductive Rejection where
  | unresolved (kind symbol : String)
  | mismatch (symbol expected found : String)
  deriving DecidableEq, Repr

namespace Rejection

def code : Rejection → DiagnosticCode
  | unresolved .. => .g0001
  | mismatch .. => .g0002

def message : Rejection → String
  | unresolved kind symbol => kind ++ " operator '" ++ symbol ++ "' was not resolved"
  | mismatch symbol expected found =>
    "operator '" ++ symbol ++ "' requires '" ++ expected ++ "', found '" ++ found ++ "'"

def diagnostic (r : Rejection) (span : Span) : Diagnostic := .error r.code span r.message

end Rejection

namespace Bound

def instr (m : Mark) (opcode : Opcode) : Instr := .mk opcode .null (some m.id)

def push (m : Mark) (operand : Operand) : Instr := .mk .push operand (some m.id)

def literalCode (m : Mark) : Literal → Code
  | .int n => [push m (.long n)]
  | .float x => [push m (.double x.toBits)]
  | .string s => [push m (.str s)]
  | .char c => [push m (.char c)]
  | .bool b => [push m (.bool b)]
  | .none => [instr m .pushNone]

def keyOperand : PropertyName → Operand
  | .name s => .str s
  | .int n => .long n

def load (m : Mark) (name : String) : Code := [push m (.str name), instr m .load]

def store (m : Mark) (name : String) : Code := [push m (.str name), instr m .store]

def define (m : Mark) (name : String) : Code := [push m (.str name), instr m .define]

def jump (m : Mark) (opcode : Opcode) (offset : Int) : Instr :=
  .mk opcode (.int (Int32.ofInt offset)) (some m.id)

def branchCode (m : Mark) (condition branch : Code) : Code :=
  condition ++ jump m .jz branch.length :: branch

def choiceCode (m : Mark) (condition branch otherwise : Code) : Code :=
  condition ++ jump m .jz (branch.length + 1) :: branch ++
    jump m .jmp otherwise.length :: otherwise

def loopCode (m : Mark) (condition body : Code) : Code :=
  condition ++ jump m .jz (body.length + 1) :: body ++
    [jump m .jmp (-(condition.length + body.length + 2))]

def stepCode (m : Mark) (name : String) (opcode : Opcode) : Code :=
  load m name ++ load m name ++ [instr m opcode] ++ store m name ++ [instr m .pop]

def procCode (m body : Mark) (params : List Operand) (code : Code) : Code :=
  [.mk .proc
    (.tuple (.list params) (.code (code ++ [instr body .pushNone, instr body .ret])))
    (some m.id)]

mutual

def Expr.code : Expr → Code
  | .literal note value => literalCode note.mark value
  | .ident note name _ => load note.mark name
  | .binary note _ (some row) left right => left.code ++ right.code ++ [instr note.mark row.opcode]
  | .unary note _ (some row) operand => operand.code ++ [instr note.mark row.opcode]
  | .step note _ name (some (row, _)) => stepCode note.mark name row.opcode
  | .assign note name none _ value => value.code ++ store note.mark name
  | .assign note name (some _) (some ⟨_, some row⟩) value =>
    load note.mark name ++ value.code ++ [instr note.mark row.opcode] ++ store note.mark name
  | .binary note .. | .unary note .. | .step note .. | .assign note .. =>
    [instr note.mark .pushNone]
  | .call note callee args =>
    callee.code ++ [.mk .call (.list (argOperands args)) (some note.mark.id)]
  | .function note params _ body => procCode note.mark body.mark (paramOperands params) body.code
  | .object note properties =>
    [.mk .pushObject (.list (propertyOperands properties)) (some note.mark.id)]
  | .member note base (.known name) =>
    base.code ++ [push note.mark (keyOperand name), instr note.mark .getMember]
  | .member note base (.computed key) => base.code ++ key.code ++ [instr note.mark .getMember]
  | .grouping _ inner => inner.code

def argOperands : List Arg → List Operand
  | [] => []
  | .mk none value _ :: rest => .tuple .null (.code value.code) :: argOperands rest
  | .mk (some name) value _ :: rest => .tuple (.str name) (.code value.code) :: argOperands rest

def paramOperands : List Param → List Operand
  | [] => []
  | .mk symbol none :: rest => .tuple (.str symbol.name) .null :: paramOperands rest
  | .mk symbol (some default) :: rest =>
    .tuple (.str symbol.name) (.code default.code) :: paramOperands rest

def propertyOperands : List Property → List Operand
  | [] => []
  | .mk (.known name) value _ :: rest =>
    .tuple (.code [push value.mark (keyOperand name)]) (.code value.code) :: propertyOperands rest
  | .mk (.computed key) value _ :: rest =>
    .tuple (.code key.code) (.code value.code) :: propertyOperands rest

def Stmt.code : Stmt → Code
  | .letDecl m symbol none => instr m .pushNone :: define m symbol.name
  | .letDecl m symbol (some init) => init.code ++ define m symbol.name
  | .functionDecl m symbol params _ body =>
    procCode m body.mark (paramOperands params) body.code ++ define m symbol.name
  | .typeAlias _ => []
  | .ifElse m condition thenBranch none => branchCode m condition.code thenBranch.code
  | .ifElse m condition thenBranch (some elseBranch) =>
    choiceCode m condition.code thenBranch.code elseBranch.code
  | .whileLoop m condition body => loopCode m condition.code body.code
  | .ret m none => [instr m .pushNone, instr m .ret]
  | .ret m (some value) => value.code ++ [instr m .ret]
  | .block body => body.code
  | .expr m value => value.code ++ [instr m .pop]

def Block.code : Block → Code
  | .mk m _ body => instr m .beginScope :: stmtsCode body ++ [instr m .endScope]

def stmtsCode : List Stmt → Code
  | [] => []
  | s :: rest => s.code ++ stmtsCode rest

end

def programCode : Program → Code
  | [] => [.mk .exit .null none]
  | [.expr _ value] => value.code ++ [.mk .exit .null none]
  | s :: rest => s.code ++ programCode rest

def require (span : Span) (symbol : String) (actual expected : Ty) : Diagnostics :=
  if actual.assignableTo expected then []
  else [(Rejection.mismatch symbol expected.text actual.text).diagnostic span]

def unresolved (note : Note) (kind symbol : String) : Diagnostics :=
  [(Rejection.unresolved kind symbol).diagnostic note.mark.span]

mutual

/-- What is rejected in an expression, in the order of its code; operands of a rejected operator
have none and are passed over. -/
def Expr.rejections : Expr → Diagnostics
  | .literal .. | .ident .. | .step _ _ _ (some _) => []
  | .binary _ op (some row) left right =>
    require left.span op.text left.type row.left ++
      require right.span op.text right.type row.right ++ left.rejections ++ right.rejections
  | .binary note op none _ _ => unresolved note "binary" op.text
  | .unary _ op (some row) operand =>
    require operand.span op.text operand.type row.operand ++ operand.rejections
  | .unary note op none _ => unresolved note "unary" op.text
  | .step note op _ none => unresolved note "postfix" op.text
  | .assign _ _ none _ value => value.rejections
  | .assign note _ (some op) (some ⟨symbol, some row⟩) value =>
    require note.mark.span op.text symbol.type row.left ++
      require value.span op.text value.type row.right ++ value.rejections
  | .assign note _ (some op) _ _ => unresolved note "compound assignment" op.text
  | .call _ callee args => callee.rejections ++ argRejections args
  | .function _ params _ body => paramRejections params ++ body.rejections
  | .object _ properties => propertyRejections properties
  | .member _ base (.known _) => base.rejections
  | .member _ base (.computed key) => base.rejections ++ key.rejections
  | .grouping _ inner => inner.rejections

def argRejections : List Arg → Diagnostics
  | [] => []
  | .mk _ value _ :: rest => value.rejections ++ argRejections rest

def paramRejections : List Param → Diagnostics
  | [] => []
  | .mk _ none :: rest => paramRejections rest
  | .mk _ (some default) :: rest => default.rejections ++ paramRejections rest

def propertyRejections : List Property → Diagnostics
  | [] => []
  | .mk (.known _) value _ :: rest => value.rejections ++ propertyRejections rest
  | .mk (.computed key) value _ :: rest =>
    key.rejections ++ value.rejections ++ propertyRejections rest

def Stmt.rejections : Stmt → Diagnostics
  | .letDecl _ _ none | .typeAlias _ | .ret _ none => []
  | .letDecl _ _ (some value) | .ret _ (some value) | .expr _ value => value.rejections
  | .functionDecl _ _ params _ body => paramRejections params ++ body.rejections
  | .ifElse _ condition thenBranch none => condition.rejections ++ thenBranch.rejections
  | .ifElse _ condition thenBranch (some elseBranch) =>
    condition.rejections ++ thenBranch.rejections ++ elseBranch.rejections
  | .whileLoop _ condition body => condition.rejections ++ body.rejections
  | .block body => body.rejections

def Block.rejections : Block → Diagnostics
  | .mk _ _ body => stmtRejections body

def stmtRejections : List Stmt → Diagnostics
  | [] => []
  | s :: rest => s.rejections ++ stmtRejections rest

end

def generate (p : Program) : Code × Diagnostics := (programCode p, stmtRejections p)

end Bound

end Quill
