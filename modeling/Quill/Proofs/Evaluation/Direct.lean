import Quill.Proofs.Evaluation.Chains
import Quill.Syntax
import Quill.Value.Apply

/-! Direct evaluation of structured programs: of those made of declarations, blocks, branches, loops
and expressions over variables and operators, by recursion on the syntax tree. Only the loops need a
bound, on how often they go round. -/
namespace Quill

/-- Whether an expression is made of what direct evaluation knows. -/
def Expr.structured : Expr → Bool
  | .literal .. | .ident .. | .step .. => true
  | .binary _ _ left right => left.structured && right.structured
  | .unary _ _ value | .assign _ _ _ value | .grouping _ value => value.structured
  | .call .. | .function .. | .object .. | .member .. => false

mutual

def Stmt.structured : Stmt → Bool
  | .letDecl _ _ _ _ none => true
  | .letDecl _ _ _ _ (some value) | .expr _ value => value.structured
  | .ifElse _ condition thenBranch none => condition.structured && thenBranch.structured
  | .ifElse _ condition thenBranch (some elseBranch) =>
    condition.structured && thenBranch.structured && elseBranch.structured
  | .whileLoop _ condition body => condition.structured && body.structured
  | .block body => body.structured
  | .functionDecl .. | .typeAlias .. | .ret .. => false

def Block.structured : Block → Bool
  | .mk _ body => stmtsStructured body

def stmtsStructured : List Stmt → Bool
  | [] => true
  | s :: rest => s.structured && stmtsStructured rest

end

inductive Halt where
  | failed (fault : Fault) (node : Nat)
  -- A loop would go round more often than it may.
  | exhausted
  deriving DecidableEq, Repr

abbrev Eval (α : Type) := EStateM Halt Chain α

namespace Eval

def load (mark : Mark) (name : String) : Eval Value := do
  match (← get).get? name with
  | some value => return value
  | none => throw (.failed (.undefinedVariable name) mark.id)

theorem loadFound {mark : Mark} {name : String} {value : Value} {chain : Chain}
    (found : chain.get? name = some value) : load mark name chain = .ok value chain := by
  change (match chain.get? name with
    | some value => return value
    | none => throw (.failed (.undefinedVariable name) mark.id) : Eval Value) chain = _
  rw [found]
  rfl

theorem loadMissing {mark : Mark} {name : String} {chain : Chain}
    (missing : chain.get? name = none) :
    load mark name chain = .error (.failed (.undefinedVariable name) mark.id) chain := by
  change (match chain.get? name with
    | some value => return value
    | none => throw (.failed (.undefinedVariable name) mark.id) : Eval Value) chain = _
  rw [missing]
  rfl

def store (name : String) (value : Value) : Eval Unit := modify (·.assign name value)

def define (name : String) (value : Value) : Eval Unit := modify (·.define name value)

def beginScope : Eval Unit := modify ([] :: ·)

def endScope : Eval Unit := modify List.tail

def binary (mark divisor : Mark) (op : Opcode) (left right : Value) : Eval Value :=
  match Value.binary op left right with
  | .ok value => return value
  | .error .divisionByZero => throw (.failed .divisionByZero divisor.id)
  | .error e => throw (.failed (.typeMismatch e.message) mark.id)

def unary (operandMark : Mark) (op : Opcode) (operand : Value) : Eval Value :=
  match Value.unary op operand with
  | .ok value => return value
  | .error e => throw (.failed (.typeMismatch e.message) operandMark.id)

def loop (condition : Eval Value) (body : Eval Unit) : (rounds : Nat) → Eval Unit
  | 0 => throw .exhausted
  | rounds + 1 => do
    if (← condition).truthy then
      body
      loop condition body rounds

end Eval

def Literal.value : Literal → Value
  | int n => .int n
  | float x => .float x
  | string s => .str s
  | char c => .char c
  | bool b => .bool b
  | none => .none

def BinaryOp.opcode : BinaryOp → Opcode
  | add => .add
  | sub => .sub
  | mul => .mul
  | div => .div
  | intDiv => .idiv
  | mod => .mod
  | pow => .pow
  | bitAnd => .band
  | bitOr => .bor
  | bitXor => .bxor
  | shl => .shl
  | shr => .shr
  | and => .and
  | or => .or
  | eq => .eq
  | notEq => .ne
  | lt => .lt
  | ltEq => .le
  | gt => .gt
  | gtEq => .ge

def UnaryOp.opcode : UnaryOp → Opcode
  | negate => .neg
  | plus => .pos
  | not => .not
  | bitNot => .bnot

def StepOp.opcode : StepOp → Opcode
  | increment => .inc
  | decrement => .dec

def Expr.origin : Expr → Mark
  | .grouping _ inner => inner.origin
  | e => e.mark

def Expr.eval : Expr → Eval Value
  | .literal _ value => return value.value
  | .ident mark name => Eval.load mark name
  | .binary mark op left right => do
    let a ← left.eval
    let b ← right.eval
    Eval.binary mark right.origin op.opcode a b
  | .unary _ op operand => do
    let a ← operand.eval
    Eval.unary operand.origin op.opcode a
  | .step mark op name _ => do
    let old ← Eval.load mark name
    let new ← Eval.unary mark op.opcode old
    Eval.store name new
    return old
  | .assign _ name none value => do
    let new ← value.eval
    Eval.store name new
    return new
  | .assign mark name (some op) value => do
    let old ← Eval.load mark name
    let operand ← value.eval
    let new ← Eval.binary mark value.origin op.opcode old operand
    Eval.store name new
    return new
  | .grouping _ inner => inner.eval
  | .call .. | .function .. | .object .. | .member .. => return .none

mutual

/-- What a structured statement does, if its loops go round at most as often as said. -/
def Stmt.exec (rounds : Nat) : Stmt → Eval Unit
  | .letDecl _ name _ _ none => Eval.define name .none
  | .letDecl _ name _ _ (some init) => do
    let value ← init.eval
    Eval.define name value
  | .ifElse _ condition thenBranch none => do
    if (← condition.eval).truthy then thenBranch.exec rounds
  | .ifElse _ condition thenBranch (some elseBranch) => do
    if (← condition.eval).truthy then thenBranch.exec rounds else elseBranch.exec rounds
  | .whileLoop _ condition body => Eval.loop condition.eval (body.exec rounds) rounds
  | .block body => body.exec rounds
  | .expr _ value => do
    let _ ← value.eval
  | .functionDecl .. | .typeAlias .. | .ret .. => return

def Block.exec (rounds : Nat) : Block → Eval Unit
  | .mk _ body => do
    Eval.beginScope
    stmtsExec rounds body
    Eval.endScope

def stmtsExec (rounds : Nat) : List Stmt → Eval Unit
  | [] => return
  | s :: rest => do
    s.exec rounds
    stmtsExec rounds rest

end

def Program.eval (rounds : Nat) : Program → Eval (Option Value)
  | [] => return none
  | [.expr _ value] => do
    let result ← value.eval
    return some result
  | s :: rest => do
    s.exec rounds
    Program.eval rounds rest

end Quill
