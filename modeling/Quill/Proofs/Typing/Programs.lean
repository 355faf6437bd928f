import Quill.Compile
import Quill.Proofs.Typing.Generated
import Quill.Proofs.Typing.Optimized

/-! Compiled programs. Their stack is known: they end with the value of their last statement on it,
if that is an expression, and else with nothing. -/
namespace Quill

def NeverReturns (code : Code) : Prop := ∀ i ∈ code, i.opcode ≠ .ret

namespace NeverReturns

variable {a b : Code} {i : Instr}

theorem nil : NeverReturns [] := fun _ inside => nomatch inside

theorem cons (head : i.opcode ≠ .ret) (tail : NeverReturns a) : NeverReturns (i :: a) :=
  List.forall_mem_cons.mpr ⟨head, tail⟩

theorem append (first : NeverReturns a) (second : NeverReturns b) : NeverReturns (a ++ b) :=
  List.forall_mem_append.mpr ⟨first, second⟩

theorem optimized (never : NeverReturns a) : NeverReturns (optimize a) := by
  intro i inside returns
  obtain ⟨p, found⟩ := List.getElem?_of_mem inside
  rw [optimize, foldedAt] at found
  obtain ⟨k, kept, rfl⟩ := Option.map_eq_some_iff.mp found
  obtain ⟨-, width, block, -⟩ := blockAt kept
  obtain ⟨i, here, same⟩ := standsForReturn block
  obtain ⟨j, origin, rfl⟩ := instrOfOptimized here
  rw [movedOpcode] at returns
  exact never j (List.mem_of_getElem? origin) ((optimizeOpcode j).symm.trans (same.mpr returns))

end NeverReturns

namespace Bound

theorem nameNever (m : Mark) (name : String) {op : Opcode} (other : op ≠ .ret) :
    NeverReturns [push m (.str name), instr m op] :=
  .cons nofun (.cons other .nil)

theorem oneNever {op : Opcode} {x : Operand} {source : Option Nat} (other : op ≠ .ret) :
    NeverReturns [.mk op x source] :=
  .cons other .nil

theorem literalNever (m : Mark) (value : Literal) : NeverReturns (literalCode m value) := by
  cases value <;> exact oneNever nofun

theorem operatorNever {op : Opcode} (operator : op.isBinary ∨ op.isUnary) : op ≠ .ret := by
  rintro rfl
  rcases operator with operator | operator <;> cases operator

theorem stepNever (m : Mark) (name : String) {op : Opcode} (unary : op.isUnary) :
    NeverReturns (stepCode m name op) :=
  .append (.append (.append (.append (nameNever m name nofun) (nameNever m name nofun))
    (oneNever (operatorNever (.inr unary)))) (nameNever m name nofun)) (oneNever nofun)

theorem exprNever : (e : Expr) → e.Resolved → NeverReturns e.code
  | .literal note value, _ => literalNever note.mark value
  | .ident note name _, _ => nameNever note.mark name nofun
  | .binary note op (some row) left right, ⟨found, lefts, rights⟩ => by
    rw [Expr.code]
    exact .append (.append (exprNever left lefts) (exprNever right rights))
      (oneNever (operatorNever (.inl (Operators.resolvedBinary found.symm))))
  | .unary note op (some row) operand, ⟨found, resolved⟩ => by
    rw [Expr.code]
    exact .append (exprNever operand resolved)
      (oneNever (operatorNever (.inr (Operators.resolvedUnary found.symm))))
  | .step note op name (some (row, symbol)), found => by
    rw [Expr.code]
    exact stepNever note.mark name (Operators.resolvedStep (found row symbol rfl))
  | .assign note name none target value, ⟨_, resolved⟩ => by
    rw [Expr.code]
    exact .append (exprNever value resolved) (nameNever note.mark name nofun)
  | .assign note name (some op) (some ⟨symbol, some row⟩) value, ⟨found, resolved⟩ => by
    rw [Expr.code]
    exact .append (.append (.append (nameNever note.mark name nofun) (exprNever value resolved))
      (oneNever (operatorNever (.inl (Operators.resolvedBinary (found _ rfl).symm)))))
        (nameNever note.mark name nofun)
  | .binary _ _ none _ _, _ => oneNever nofun
  | .unary _ _ none _, _ => oneNever nofun
  | .step _ _ _ none, _ => oneNever nofun
  | .assign _ _ (some _) none _, _ => oneNever nofun
  | .assign _ _ (some _) (some ⟨_, none⟩) _, _ => oneNever nofun
  | .call note callee args, ⟨callees, _⟩ => by
    rw [Expr.code]
    exact .append (exprNever callee callees) (oneNever nofun)
  | .function _ _ _ _, _ => by
    rw [Expr.code]
    exact oneNever nofun
  | .object _ _, _ => by
    rw [Expr.code]
    exact oneNever nofun
  | .member note base (.known name), ⟨bases, _⟩ => by
    rw [Expr.code]
    exact .append (exprNever base bases) (.cons nofun (oneNever nofun))
  | .member note base (.computed key), ⟨bases, keys⟩ => by
    rw [Expr.code]
    exact .append (.append (exprNever base bases) (exprNever key keys)) (oneNever nofun)
  | .grouping _ inner, resolved => by
    rw [Expr.code]
    exact exprNever inner resolved

mutual

theorem stmtNever : (s : Stmt) → s.Resolved → s.returns = [] → NeverReturns s.code
  | .letDecl m symbol none, _, _ => by
    rw [Stmt.code]
    exact .cons nofun (nameNever m symbol.name nofun)
  | .letDecl m symbol (some init), resolved, _ => by
    rw [Stmt.code]
    exact .append (exprNever init resolved) (nameNever m symbol.name nofun)
  | .functionDecl m symbol _ _ _, _, _ => by
    rw [Stmt.code]
    exact .append (oneNever nofun) (nameNever m symbol.name nofun)
  | .typeAlias _, _, _ => by
    rw [Stmt.code]
    exact .nil
  | .ifElse m condition thenBranch none, ⟨conditions, branches⟩, free => by
    rw [Stmt.returns] at free
    rw [Stmt.code]
    exact .append (exprNever condition conditions)
      (.cons nofun (blockNever thenBranch branches free))
  | .ifElse m condition thenBranch (some elseBranch), ⟨conditions, branches, others⟩, free => by
    rw [Stmt.returns] at free
    obtain ⟨free, free'⟩ := List.append_eq_nil_iff.mp free
    rw [Stmt.code]
    exact .append (.append (exprNever condition conditions)
      (.cons nofun (blockNever thenBranch branches free)))
        (.cons nofun (stmtNever elseBranch others free'))
  | .whileLoop m condition body, ⟨conditions, bodies⟩, free => by
    rw [Stmt.returns] at free
    rw [Stmt.code]
    exact .append (.append (exprNever condition conditions)
      (.cons nofun (blockNever body bodies free))) (oneNever nofun)
  | .ret _ none, _, free => by
    rw [Stmt.returns] at free
    cases free
  | .ret _ (some _), _, free => by
    rw [Stmt.returns] at free
    cases free
  | .block body, resolved, free => by
    rw [Stmt.returns] at free
    rw [Stmt.code]
    exact blockNever body resolved free
  | .expr m value, resolved, _ => by
    rw [Stmt.code]
    exact .append (exprNever value resolved) (oneNever nofun)

theorem blockNever : (body : Block) → body.Resolved → body.returns = [] → NeverReturns body.code
  | .mk _ _ body, resolved, free => by
    rw [Block.returns] at free
    rw [Block.code]
    exact .append (.cons nofun (stmtsNever body resolved free)) (oneNever nofun)

theorem stmtsNever : (body : List Stmt) → stmtsResolved body → returnsOf body = [] →
    NeverReturns (stmtsCode body)
  | [], _, _ => by
    rw [stmtsCode]
    exact .nil
  | s :: rest, ⟨resolved, others⟩, free => by
    rw [returnsOf] at free
    obtain ⟨free, free'⟩ := List.append_eq_nil_iff.mp free
    rw [stmtsCode]
    exact (stmtNever s resolved free).append (stmtsNever rest others free')

end

def resultOf : Program → List Known
  | [] => []
  | [.expr _ _] => [.value]
  | _ :: rest => resultOf rest

theorem programFragment (p : Program) (resolved : stmtsResolved p) (short : Short (programCode p)) :
    ∃ code, programCode p = code ++ [.mk .exit .null none] ∧
      Fragment code .start ⟨resultOf p, 0⟩ ∧ (returnsOf p = [] → NeverReturns code) := by
  induction p using programCode.induct with
  | case1 => exact ⟨[], rfl, .nil, fun _ => .nil⟩
  | case2 m value =>
    rw [programCode] at short
    exact ⟨value.code, rfl, exprFragment [] 0 value resolved.1 short.append.1,
      fun _ => exprNever value resolved.1⟩
  | case3 s rest other ih =>
    rw [programCode] at short ⊢
    · obtain ⟨shortFirst, shortRest⟩ := short.append
      obtain ⟨code, same, fragment, never⟩ := ih resolved.2 shortRest
      refine ⟨s.code ++ code, by rw [same, List.append_assoc],
        (stmtFragment 0 s resolved.1 shortFirst).append ?_, fun free => ?_⟩
      · rw [resultOf]
        · exact fragment
        · exact other
      · rw [returnsOf] at free
        obtain ⟨free, free'⟩ := List.append_eq_nil_iff.mp free
        exact (stmtNever s resolved.1 free).append (never free')
    · exact other
    · exact other

end Bound

theorem Fragment.ends {code : Code} {q : Point} (fragment : Fragment code .start q) :
    Typed (some q) (code ++ [.mk .exit .null none]) :=
  ((fragmentPiece.mp fragment).ending.append (.exit rfl rfl)).typed (by rintro _ ⟨⟩; rfl)

structure ProgramTyped (p : Bound.Program) (code : Code) : Prop where
  typed : Typed (some ⟨Bound.resultOf p, 0⟩) code
  never : Bound.returnsOf p = [] → NeverReturns code

theorem generatedTyped (p : Bound.Program) (resolved : Bound.stmtsResolved p)
    (short : Short (Bound.programCode p)) : ProgramTyped p (Bound.programCode p) := by
  obtain ⟨code, same, fragment, never⟩ := Bound.programFragment p resolved short
  rw [same]
  exact ⟨fragment.ends, fun free => (never free).append (.cons nofun .nil)⟩

theorem acceptedCases {p : Prop} [Decidable p] {e : ε} {x : Except ε α} {a : α}
    (accepted : (if p then .error e else x) = .ok a) : x = .ok a := by
  by_cases refused : p
  · rw [if_pos refused] at accepted
    cases accepted
  · rwa [if_neg refused] at accepted

theorem compiledCode {source : String} {folding : Bool} {c : Compiled}
    (compiled : compile source folding = .ok c) :
    c.code = if folding then optimize (Bound.programCode (bind c.program).1)
      else Bound.programCode (bind c.program).1 := by
  unfold compile at compiled
  cases parsed : parseSource source with
  | error e =>
    rw [parsed] at compiled
    cases compiled
  | ok program =>
    rw [parsed] at compiled
    have accepted := acceptedCases (acceptedCases compiled)
    cases accepted
    rfl

theorem compiledTyped {source : String} {folding : Bool} {c : Compiled}
    (compiled : compile source folding = .ok c)
    (short : Short (Bound.programCode (bind c.program).1)) :
    ProgramTyped (bind c.program).1 c.code := by
  have typed := generatedTyped (bind c.program).1 (bindResolved c.program) short
  rw [compiledCode compiled]
  cases folding with
  | false => exact typed
  | true => exact ⟨optimizedTyped typed.typed, fun free => (typed.never free).optimized⟩

end Quill
