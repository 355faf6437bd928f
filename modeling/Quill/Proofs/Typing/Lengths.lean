import Quill.Proofs.Binding.Numbers
import Quill.Proofs.Parsing.Counted
import Quill.Proofs.Scoping.Declared

/-! How long code gets: at most eight instructions for each node, in the code itself and in the code
in its operands. So jumps reach everywhere in programs that are not very long. -/
namespace Quill

def Code.Within (n : Nat) (code : Code) : Prop := longest code ≤ n

theorem longestOf (code : Code) : longest code = max code.length (instrsLongest code) := by
  rw [longest, Operand.longest]

namespace Code.Within

variable {n k : Nat} {a b : Code}

theorem mono (within : Within n a) (bound : n ≤ k) : Within k a := Nat.le_trans within bound

theorem append (first : Within n a) (second : Within k b) : Within (n + k) (a ++ b) := by
  unfold Within at first second ⊢
  rw [longestOf] at first second ⊢
  rw [List.length_append, longestAppend]
  omega

theorem one (op : Opcode) {x : Operand} (source : Option Nat) (inner : x.longest ≤ n) :
    Within (n + 1) [.mk op x source] := by
  unfold Within
  rw [longestOf, instrsLongest, instrsLongest, Instr.longest, List.length_singleton]
  omega

theorem code (within : Within n a) : (Operand.code a).longest ≤ n := within

end Code.Within

namespace Bound

open Code (Within)

variable {m : Mark}

theorem flatWithin {op : Opcode} {x : Operand} {source : Option Nat} {v : Value}
    (constant : Value.ofOperand? x = some v) : Within 1 [.mk op x source] := by
  refine Within.one op source (Nat.le_of_eq ?_)
  cases x with
  | code | list | tuple => cases constant
  | _ => rw [Operand.longest]

theorem literalWithin (value : Literal) : Within 1 (literalCode m value) := by
  cases value <;> exact flatWithin rfl

theorem instrWithin (op : Opcode) : Within 1 [instr m op] := flatWithin rfl

theorem namedWithin (op : Opcode) (name : String) :
    Within 2 [push m (.str name), instr m op] :=
  Within.append (n := 1) (flatWithin rfl) (instrWithin op)

theorem keyWithin (name : PropertyName) : Within 1 [push m (keyOperand name)] := by
  obtain ⟨v, constant⟩ := keyConstant name
  exact flatWithin constant

theorem jumpWithin (op : Opcode) (offset : Int) : Within 1 [jump m op offset] := flatWithin rfl

theorem stepWithin (name : String) (op : Opcode) : Within 8 (stepCode m name op) :=
  ((((namedWithin .load name).append (namedWithin .load name)).append (instrWithin op)).append
    (namedWithin .store name)).append (instrWithin .pop)

theorem procWithin {body : Mark} {params : List Operand} {code : Code} {n k : Nat}
    (given : operandsLongest params ≤ n) (inner : Within k code) :
    Within (n + k + 3) (procCode m body params code) := by
  have whole : Within (k + 2) (code ++ [instr body .pushNone, instr body .ret]) :=
    inner.append ((instrWithin .pushNone).append (instrWithin .ret))
  refine Within.one (n := n + k + 2) .proc (some m.id) ?_
  have list : (Operand.list params).longest ≤ n := by rwa [Operand.longest]
  have block := whole.code
  rw [Operand.longest]
  omega

theorem listWithin (op : Opcode) {items : List Operand} {n : Nat}
    (inner : operandsLongest items ≤ n) : Within (n + 1) [.mk op (.list items) (some m.id)] :=
  .one op _ (by rwa [Operand.longest])

theorem Expr.someNode (e : Expr) : 0 < e.nodes.length :=
  List.length_pos_iff.mpr (List.ne_nil_of_mem e.nodeInside)

theorem oneNode {e : Expr} {n : Nat} (few : n ≤ 8) (within : Within n e.code) :
    Within (8 * e.nodes.length) e.code :=
  within.mono (by have := e.someNode; omega)

-- A step takes the most for its node: it reads its variable twice, computes, assigns and drops.
mutual

theorem exprWithin : (e : Expr) → Within (8 * e.nodes.length) e.code
  | .literal note value => oneNode (by decide) (literalWithin value)
  | .ident note name _ => oneNode (by decide) (namedWithin .load name)
  | .step note _ name (some (row, _)) => oneNode (by decide) (stepWithin name row.opcode)
  | .step _ _ _ none | .binary _ _ none _ _ | .unary _ _ none _ | .assign _ _ (some _) none _
  | .assign _ _ (some _) (some ⟨_, none⟩) _ => oneNode (by decide) (instrWithin .pushNone)
  | .binary note op (some row) left right => by
    rw [Expr.code]
    refine (((exprWithin left).append (exprWithin right)).append (instrWithin row.opcode)).mono ?_
    rw [Expr.nodes, List.length_append, List.length_append, List.length_singleton]
    omega
  | .unary note op (some row) operand => by
    rw [Expr.code]
    refine ((exprWithin operand).append (instrWithin row.opcode)).mono ?_
    rw [Expr.nodes, List.length_append, List.length_singleton]
    omega
  | .assign note name none target value => by
    rw [Expr.code]
    refine ((exprWithin value).append (namedWithin .store name)).mono ?_
    rw [Expr.nodes, List.length_append, List.length_singleton]
    omega
  | .assign note name (some op) (some ⟨symbol, some row⟩) value => by
    rw [Expr.code]
    refine ((((namedWithin .load name).append (exprWithin value)).append
      (instrWithin row.opcode)).append (namedWithin .store name)).mono ?_
    rw [Expr.nodes, List.length_append, List.length_singleton]
    omega
  | .call note callee args => by
    rw [Expr.code]
    refine ((exprWithin callee).append (listWithin .call (argsWithin args))).mono ?_
    rw [Expr.nodes, List.length_append, List.length_append, List.length_singleton]
    omega
  | .function note params declared body => by
    rw [Expr.code]
    refine (procWithin (paramsWithin params) (blockWithin body)).mono ?_
    rw [Expr.nodes, List.length_append, List.length_append, List.length_singleton]
    omega
  | .object note properties => by
    rw [Expr.code]
    refine (listWithin .pushObject (propertiesWithin properties)).mono ?_
    rw [Expr.nodes, List.length_append, List.length_singleton]
    omega
  | .member note base (.known name) => by
    rw [Expr.code]
    refine ((exprWithin base).append ((keyWithin name).append (instrWithin .getMember))).mono ?_
    rw [Expr.nodes, List.length_append, List.length_append, List.length_singleton]
    omega
  | .member note base (.computed key) => by
    rw [Expr.code]
    refine (((exprWithin base).append (exprWithin key)).append (instrWithin .getMember)).mono ?_
    rw [Expr.nodes, Key.nodes, List.length_append, List.length_append, List.length_singleton]
    omega
  | .grouping note inner => by
    rw [Expr.code]
    refine (exprWithin inner).mono ?_
    rw [Expr.nodes, List.length_append]
    omega

theorem argsWithin : (args : List Arg) →
    operandsLongest (argOperands args) ≤ 8 * (argNodes args).length
  | [] => Nat.zero_le _
  | .mk name value type :: rest => by
    have first := (exprWithin value).code
    have others := argsWithin rest
    have named : ∃ x, argOperands (.mk name value type :: rest) =
        .tuple x (.code value.code) :: argOperands rest ∧ x.longest = 0 := by
      cases name <;> exact ⟨_, by rw [argOperands], by rw [Operand.longest]⟩
    obtain ⟨x, same, flat⟩ := named
    rw [same, argNodes, operandsLongest, Operand.longest, List.length_append]
    omega

theorem paramsWithin : (params : List Param) →
    operandsLongest (paramOperands params) ≤ 8 * (paramNodes params).length
  | [] => Nat.zero_le _
  | .mk symbol none :: rest => by
    have others := paramsWithin rest
    rw [paramOperands, paramNodes, operandsLongest, Operand.longest, Operand.longest,
      Operand.longest]
    omega
  | .mk symbol (some default) :: rest => by
    have name : (Operand.str symbol.name).longest = 0 := by rw [Operand.longest]
    have first := (exprWithin default).code
    have others := paramsWithin rest
    rw [paramOperands, paramNodes, operandsLongest, Operand.longest, List.length_append]
    omega

theorem propertiesWithin : (properties : List Property) →
    operandsLongest (propertyOperands properties) ≤ 8 * (propertyNodes properties).length
  | [] => Nat.zero_le _
  | .mk (.known name) value expected :: rest => by
    have known := (keyWithin (m := value.mark) name).code
    have some := value.someNode
    have first := (exprWithin value).code
    have others := propertiesWithin rest
    rw [propertyOperands, propertyNodes, Key.nodes, operandsLongest, Operand.longest,
      List.nil_append, List.length_append]
    omega
  | .mk (.computed key) value expected :: rest => by
    have keys := (exprWithin key).code
    have first := (exprWithin value).code
    have others := propertiesWithin rest
    rw [propertyOperands, propertyNodes, Key.nodes, operandsLongest, Operand.longest,
      List.length_append, List.length_append]
    omega

theorem stmtWithin : (s : Stmt) → Within (8 * s.nodes.length) s.code
  | .letDecl m symbol none => by
    rw [Stmt.code, Stmt.nodes]
    exact ((instrWithin .pushNone).append (namedWithin .define symbol.name)).mono (by simp)
  | .letDecl m symbol (some init) => by
    rw [Stmt.code, Stmt.nodes]
    refine ((exprWithin init).append (namedWithin .define symbol.name)).mono ?_
    rw [List.length_append, List.length_singleton]
    omega
  | .functionDecl m symbol params declared body => by
    rw [Stmt.code, Stmt.nodes]
    refine ((procWithin (paramsWithin params) (blockWithin body)).append
      (namedWithin .define symbol.name)).mono ?_
    rw [List.length_append, List.length_append, List.length_singleton]
    omega
  | .typeAlias _ => Nat.zero_le _
  | .ifElse m condition thenBranch none => by
    rw [Stmt.code, Stmt.nodes]
    refine ((exprWithin condition).append
      ((jumpWithin .jz _).append (blockWithin thenBranch))).mono ?_
    rw [List.length_append, List.length_append, List.length_singleton]
    omega
  | .ifElse m condition thenBranch (some elseBranch) => by
    rw [Stmt.code, Stmt.nodes]
    refine (((exprWithin condition).append ((jumpWithin .jz _).append (blockWithin thenBranch))).append
      ((jumpWithin .jmp _).append (stmtWithin elseBranch))).mono ?_
    rw [List.length_append, List.length_append, List.length_append, List.length_singleton]
    omega
  | .whileLoop m condition body => by
    rw [Stmt.code, Stmt.nodes]
    refine (((exprWithin condition).append ((jumpWithin .jz _).append (blockWithin body))).append
      (jumpWithin .jmp _)).mono ?_
    rw [List.length_append, List.length_append, List.length_singleton]
    omega
  | .ret m none => by
    rw [Stmt.code, Stmt.nodes]
    exact ((instrWithin .pushNone).append (instrWithin .ret)).mono (by simp)
  | .ret m (some value) => by
    rw [Stmt.code, Stmt.nodes]
    refine ((exprWithin value).append (instrWithin .ret)).mono ?_
    rw [List.length_append, List.length_singleton]
    omega
  | .block body => by
    rw [Stmt.code, Stmt.nodes]
    exact blockWithin body
  | .expr m value => by
    rw [Stmt.code, Stmt.nodes]
    refine ((exprWithin value).append (instrWithin .pop)).mono ?_
    rw [List.length_append, List.length_singleton]
    omega

theorem blockWithin : (body : Block) → Within (8 * body.nodes.length) body.code
  | .mk m type body => by
    rw [Block.code, Block.nodes]
    refine (((instrWithin .beginScope).append (stmtsWithin body)).append
      (instrWithin .endScope)).mono ?_
    rw [List.length_append, List.length_singleton]
    omega

theorem stmtsWithin : (body : List Stmt) → Within (8 * (stmtNodes body).length) (stmtsCode body)
  | [] => Nat.zero_le _
  | s :: rest => by
    rw [stmtsCode, stmtNodes]
    refine ((stmtWithin s).append (stmtsWithin rest)).mono ?_
    rw [List.length_append]
    omega

end

theorem programWithin (p : Program) : Within (8 * (stmtNodes p).length + 1) (programCode p) := by
  induction p using programCode.induct with
  | case1 => exact .one _ _ (Nat.le_refl 0)
  | case2 m value =>
    rw [programCode]
    refine ((exprWithin value).append (flatWithin rfl)).mono ?_
    rw [stmtNodes, stmtNodes, Stmt.nodes, List.length_append, List.length_append,
      List.length_singleton]
    omega
  | case3 s rest other ih =>
    rw [programCode]
    · refine ((stmtWithin s).append ih).mono ?_
      rw [stmtNodes, List.length_append]
      omega
    · exact other

end Bound

/-- No instruction sequence is too long for a jump in what is compiled from so few characters. -/
theorem compiledShort {source : String} {folding : Bool} {c : Compiled}
    (compiled : compile source folding = .ok c) (few : source.length + 2 ≤ 2 ^ 28) :
    Short (Bound.programCode (bind c.program).1) := by
  obtain ⟨-, u, binds⟩ := compiledBinds compiled
  have nodes := sourceCounted (compiledParses compiled).1
  have stands := (stmtsStand binds).length_le
  have within := Bound.programWithin (bind c.program).1
  rw [List.length_map, List.length_map] at stands
  change longest (Bound.programCode (bind c.program).1) ≤ _ at within
  change (stmtNodes c.program).length ≤ _ at nodes
  unfold Short
  omega

end Quill
