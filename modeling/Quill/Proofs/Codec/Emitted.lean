import Quill.Proofs.Codec.Nesting
import Quill.Proofs.Typing.Programs

/-! Which programs can be read back from their binary form. An argument or a property puts three
levels of operands around the code of its value, a default four and a function two around its body;
a program is read back if these come to no more levels than a reader goes. -/
namespace Quill

namespace Bound

mutual

def Expr.nesting : Expr → Nat
  | .binary _ _ (some _) left right => max left.nesting right.nesting
  | .unary _ _ (some _) operand => operand.nesting
  | .assign _ _ none _ value => value.nesting
  | .assign _ _ (some _) (some ⟨_, some _⟩) value => value.nesting
  | .literal .. | .ident .. | .binary .. | .unary .. | .step .. | .assign .. => 0
  | .call _ callee args => max callee.nesting (argsNesting args + 1)
  | .function _ params _ body => max (paramsNesting params) body.nesting + 2
  | .object _ properties => propertiesNesting properties + 1
  | .member _ base (.known _) => base.nesting
  | .member _ base (.computed key) => max base.nesting key.nesting
  | .grouping _ inner => inner.nesting

def argsNesting : List Arg → Nat
  | [] => 0
  | .mk _ value _ :: rest => max (value.nesting + 2) (argsNesting rest)

def paramsNesting : List Param → Nat
  | [] => 0
  | .mk _ none :: rest => max 1 (paramsNesting rest)
  | .mk _ (some default) :: rest => max (default.nesting + 2) (paramsNesting rest)

def propertiesNesting : List Property → Nat
  | [] => 0
  | .mk (.known _) value _ :: rest => max (value.nesting + 2) (propertiesNesting rest)
  | .mk (.computed key) value _ :: rest =>
    max (max key.nesting value.nesting + 2) (propertiesNesting rest)

def Stmt.nesting : Stmt → Nat
  | .letDecl _ _ none | .typeAlias _ | .ret _ none => 0
  | .letDecl _ _ (some value) | .ret _ (some value) | .expr _ value => value.nesting
  | .functionDecl _ _ params _ body => max (paramsNesting params) body.nesting + 2
  | .ifElse _ condition thenBranch none => max condition.nesting thenBranch.nesting
  | .ifElse _ condition thenBranch (some elseBranch) =>
    max (max condition.nesting thenBranch.nesting) elseBranch.nesting
  | .whileLoop _ condition body => max condition.nesting body.nesting
  | .block body => body.nesting

def Block.nesting : Block → Nat
  | .mk _ _ body => stmtsNesting body

def stmtsNesting : List Stmt → Nat
  | [] => 0
  | s :: rest => max s.nesting (stmtsNesting rest)

end

theorem literalNests (m : Mark) (value : Literal) : Nests 0 (literalCode m value) := by
  cases value <;> exact .ofFlat rfl

theorem strNests (s : String) : Operand.Nests 0 (.str s) := ⟨rfl, rfl⟩

theorem nullNests : Operand.Nests 0 .null := ⟨rfl, rfl⟩

theorem keyNests (m : Mark) (name : PropertyName) :
    Operand.Nests 1 (.code [push m (keyOperand name)]) := by
  refine Nests.block (.ofFlat ?_)
  cases name <;> rfl

theorem pairNests {x y : Operand} {n k : Nat} (first : x.Nests (n + 1)) (second : y.Nests (k + 1)) :
    Operand.Nests (max n k + 2) (.tuple x y) := by
  have both := first.tuple second
  rwa [Nat.add_max_add_right] at both

theorem procNests (m body : Mark) {params : List Operand} {code : Code} {n k : Nat}
    (given : OperandsNest n params) (nests : Nests k code) :
    Nests (max n k + 2) (procCode m body params code) := by
  have ended : Nests k (code ++ [instr body .pushNone, instr body .ret]) := nests.before rfl
  exact .one _ (pairNests given.list ended.block) rfl

mutual

theorem exprNests : (e : Expr) → Nests e.nesting e.code
  | .literal note value => by
    rw [Expr.code]
    exact literalNests note.mark value
  | .ident note name _ => by
    rw [Expr.code]
    exact .ofFlat rfl
  | .binary note _ (some row) left right => by
    rw [Expr.code, Expr.nesting]
    exact ((exprNests left).append (exprNests right)).before rfl
  | .unary note _ (some row) operand => by
    rw [Expr.code, Expr.nesting]
    exact (exprNests operand).before rfl
  | .step note _ name (some (row, _)) => by
    rw [Expr.code]
    exact .ofFlat rfl
  | .assign note name none _ value => by
    rw [Expr.code, Expr.nesting]
    exact (exprNests value).before rfl
  | .assign note name (some _) (some ⟨_, some row⟩) value => by
    rw [Expr.code, Expr.nesting]
    exact ((Nests.cons rfl (.cons rfl (exprNests value))).before rfl).before rfl
  | .binary _ _ none _ _ => .ofFlat rfl
  | .unary _ _ none _ => .ofFlat rfl
  | .step _ _ _ none => .ofFlat rfl
  | .assign _ _ (some _) none _ => .ofFlat rfl
  | .assign _ _ (some _) (some ⟨_, none⟩) _ => .ofFlat rfl
  | .call note callee args => by
    rw [Expr.code, Expr.nesting]
    exact (exprNests callee).append (.one _ (argsNest args).list rfl)
  | .function note params _ body => by
    rw [Expr.code, Expr.nesting]
    exact procNests _ _ (paramsNest params) (blockNests body)
  | .object note properties => by
    rw [Expr.code, Expr.nesting]
    exact .one _ (propertiesNest properties).list rfl
  | .member note base (.known name) => by
    rw [Expr.code, Expr.nesting]
    refine (exprNests base).before ?_
    cases name <;> rfl
  | .member note base (.computed key) => by
    rw [Expr.code, Expr.nesting]
    exact ((exprNests base).append (exprNests key)).before rfl
  | .grouping _ inner => by
    rw [Expr.code, Expr.nesting]
    exact exprNests inner

theorem argsNest : (args : List Arg) → OperandsNest (argsNesting args) (argOperands args)
  | [] => .nil
  | .mk none value _ :: rest => by
    have pair := nullNests.tuple (exprNests value).block
    rw [Nat.zero_max] at pair
    rw [argOperands, argsNesting]
    exact .cons pair (argsNest rest)
  | .mk (some name) value _ :: rest => by
    have pair := (strNests name).tuple (exprNests value).block
    rw [Nat.zero_max] at pair
    rw [argOperands, argsNesting]
    exact .cons pair (argsNest rest)

theorem paramsNest : (params : List Param) →
    OperandsNest (paramsNesting params) (paramOperands params)
  | [] => .nil
  | .mk symbol none :: rest => by
    rw [paramOperands, paramsNesting]
    exact .cons ((strNests symbol.name).tuple nullNests) (paramsNest rest)
  | .mk symbol (some default) :: rest => by
    have pair := (strNests symbol.name).tuple (exprNests default).block
    rw [Nat.zero_max] at pair
    rw [paramOperands, paramsNesting]
    exact .cons pair (paramsNest rest)

theorem propertiesNest : (properties : List Property) →
    OperandsNest (propertiesNesting properties) (propertyOperands properties)
  | [] => .nil
  | .mk (.known name) value _ :: rest => by
    have pair := pairNests (keyNests value.mark name) (exprNests value).block
    rw [Nat.zero_max] at pair
    rw [propertyOperands, propertiesNesting]
    exact .cons pair (propertiesNest rest)
  | .mk (.computed key) value _ :: rest => by
    rw [propertyOperands, propertiesNesting]
    exact .cons (pairNests (exprNests key).block (exprNests value).block) (propertiesNest rest)

theorem stmtNests : (s : Stmt) → Nests s.nesting s.code
  | .letDecl _ _ none => .ofFlat rfl
  | .typeAlias _ => .ofFlat rfl
  | .ret _ none => .ofFlat rfl
  | .letDecl m symbol (some init) => by
    rw [Stmt.code, Stmt.nesting]
    exact (exprNests init).before rfl
  | .functionDecl m symbol params _ body => by
    rw [Stmt.code, Stmt.nesting]
    exact (procNests _ _ (paramsNest params) (blockNests body)).before rfl
  | .ifElse m condition thenBranch none => by
    rw [Stmt.code, Stmt.nesting]
    exact (exprNests condition).append (.cons rfl (blockNests thenBranch))
  | .ifElse m condition thenBranch (some elseBranch) => by
    rw [Stmt.code, Stmt.nesting]
    exact ((exprNests condition).append (.cons rfl (blockNests thenBranch))).append
      (.cons rfl (stmtNests elseBranch))
  | .whileLoop m condition body => by
    rw [Stmt.code, Stmt.nesting]
    exact ((exprNests condition).append (.cons rfl (blockNests body))).before rfl
  | .ret m (some value) => by
    rw [Stmt.code, Stmt.nesting]
    exact (exprNests value).before rfl
  | .block body => by
    rw [Stmt.code, Stmt.nesting]
    exact blockNests body
  | .expr m value => by
    rw [Stmt.code, Stmt.nesting]
    exact (exprNests value).before rfl

theorem blockNests : (body : Block) → Nests body.nesting body.code
  | .mk m _ body => by
    rw [Block.code, Block.nesting]
    exact (Nests.cons rfl (stmtsNests body)).before rfl

theorem stmtsNests : (body : List Stmt) → Nests (stmtsNesting body) (stmtsCode body)
  | [] => .ofFlat rfl
  | s :: rest => by
    rw [stmtsCode, stmtsNesting]
    exact (stmtNests s).append (stmtsNests rest)

end

theorem programNests (p : Program) : Nests (stmtsNesting p) (programCode p) := by
  induction p using programCode.induct with
  | case1 => exact .ofFlat rfl
  | case2 m value =>
    rw [programCode, stmtsNesting, stmtsNesting, Stmt.nesting, Nat.max_zero]
    exact (exprNests value).before rfl
  | case3 s rest other ih =>
    rw [programCode, stmtsNesting]
    · exact (stmtNests s).append ih
    · exact other

end Bound

theorem compiledNesting {source : String} {folding : Bool} {c : Compiled}
    (compiled : compile source folding = .ok c) :
    instrsNesting c.code = Bound.stmtsNesting (bind c.program).1 := by
  have nests := Bound.programNests (bind c.program).1
  rw [compiledCode compiled]
  cases folding with
  | false => exact nests.plain
  | true => exact nests.folded

open Codec in
/-- What is compiled can be read back from its binary form exactly if its expressions nest no deeper
than a reader goes, with constants folded or not. -/
theorem emittedReadBack {source : String} {folding : Bool} {c : Compiled}
    (compiled : compile source folding = .ok c) (bound : c.code.length < 2 ^ 32)
    (counted : InstrsCounted c.code) :
    decode (encode c.code) = if Bound.stmtsNesting (bind c.program).1 ≤ maxNesting
      then .ok (instrsUnsourced c.code) else .error .tooDeep := by
  have read := congrArg (Except.map Prod.fst) (readCodeWritten bound counted [])
  rw [List.append_nil, compiledNesting compiled, answer, apply_ite (Except.map Prod.fst)] at read
  exact read

end Quill
