import Quill.Proofs.Binding.Resolved
import Quill.Proofs.Typing.Fragments
import Mathlib.Algebra.Group.Nat.Defs

/-! Generated code has a known stack, if none of its instruction sequences is too long for a jump. -/
namespace Quill

mutual

def Operand.longest : Operand → Nat
  | .code body => max body.length (instrsLongest body)
  | .list items => operandsLongest items
  | .tuple a b => max a.longest b.longest
  | .null | .bool _ | .int _ | .long _ | .double _ | .str _ | .char _ => 0

def operandsLongest : List Operand → Nat
  | [] => 0
  | x :: rest => max x.longest (operandsLongest rest)

def Instr.longest : Instr → Nat
  | .mk _ operand _ => operand.longest

def instrsLongest : List Instr → Nat
  | [] => 0
  | i :: rest => max i.longest (instrsLongest rest)

end

def longest (code : Code) : Nat := (Operand.code code).longest

/-- Jumps, whose offsets are cut to 32 bits, reach everywhere. They do so in all programs of up to a
quarter of a billion characters (`compiledShort`). -/
def Short (code : Code) : Prop := longest code < 2 ^ 31

instance (code : Code) : Decidable (Short code) := inferInstanceAs (Decidable (longest code < 2 ^ 31))

theorem longestAppend (a b : Code) :
    instrsLongest (a ++ b) = max (instrsLongest a) (instrsLongest b) := by
  induction a with
  | nil => exact (Nat.zero_max _).symm
  | cons i a ih => rw [List.cons_append, instrsLongest, instrsLongest, ih, Nat.max_assoc]

namespace Short

variable {a b : Code}

theorem bounds (short : Short a) : a.length < 2 ^ 31 ∧ instrsLongest a < 2 ^ 31 := by
  unfold Short longest at short
  rw [Operand.longest] at short
  omega

theorem ofBounds (length : a.length < 2 ^ 31) (inner : instrsLongest a < 2 ^ 31) : Short a := by
  unfold Short longest
  rw [Operand.longest]
  omega

theorem append (short : Short (a ++ b)) : Short a ∧ Short b := by
  obtain ⟨length, inner⟩ := short.bounds
  rw [List.length_append] at length
  rw [longestAppend] at inner
  exact ⟨.ofBounds (by omega) (by omega), .ofBounds (by omega) (by omega)⟩

theorem head {i : Instr} (short : Short (i :: b)) : i.operand.longest < 2 ^ 31 ∧ Short b := by
  obtain ⟨length, inner⟩ := short.bounds
  rw [List.length_cons] at length
  rw [instrsLongest] at inner
  obtain ⟨op, x, source⟩ := i
  rw [Instr.longest] at inner
  exact ⟨by change x.longest < _; omega, .ofBounds (by omega) (by omega)⟩

end Short

theorem argumentMember {items : List Operand} {slot : Nat} {c : Code}
    (found : argumentCode? items slot = some c) : ∃ name, .tuple name (.code c) ∈ items := by
  unfold argumentCode? at found
  split at found
  · rename_i name code here
    cases found
    exact ⟨name, List.mem_of_getElem? here⟩
  · cases found

theorem propertyMember {items : List Operand} {slot : Nat} {c : Code}
    (found : propertyCode? items slot = some c) :
    ∃ key value, .tuple (.code key) (.code value) ∈ items ∧ (c = key ∨ c = value) := by
  unfold propertyCode? at found
  split at found
  · rename_i key value here
    refine ⟨key, value, List.mem_of_getElem? here, ?_⟩
    cases found
    split
    · exact .inl rfl
    · exact .inr rfl
  · cases found

def ArgumentTyped (x : Operand) : Prop := ∃ name code, x = .tuple name (.code code) ∧ Typed none code

def PropertyTyped (x : Operand) : Prop :=
  ∃ key value, x = .tuple (.code key) (.code value) ∧ Typed none key ∧ Typed none value

def ParamTyped (x : Operand) : Prop :=
  ∃ name default, x = .tuple (.str name) default ∧ ∀ c, default = .code c → Typed none c

namespace Fragment

variable {p q : Point} {s : List Known} {b : Nat}

theorem typed {code : Code} (fragment : Fragment code .start q) : Typed none code :=
  (fragmentPiece.mp fragment).typed nofun

theorem flat {op : Opcode} {x : Operand} {source : Option Nat} {v : Value}
    (constant : Value.ofOperand? x = some v) (effect : (Instr.mk op x source).Effect p q) :
    Fragment [.mk op x source] p q :=
  .one effect fun slot c found => by
    rw [flatSlot constant] at found
    cases found

theorem call {items : List Operand} (source : Option Nat) (k : Known)
    (typed : ∀ x ∈ items, ArgumentTyped x) :
    Fragment [.mk .call (.list items) source] ⟨k :: s, b⟩ ⟨.value :: s, b⟩ := by
  refine .one (.call rfl rfl fun x inside => ?_) fun slot c found => ?_
  · obtain ⟨name, code, same, -⟩ := typed x inside
    exact ⟨name, code, same⟩
  · obtain ⟨name, inside⟩ := argumentMember found
    obtain ⟨_, _, same, typed⟩ := typed _ inside
    cases same
    exact typed

theorem object {items : List Operand} (source : Option Nat) (typed : ∀ x ∈ items, PropertyTyped x) :
    Fragment [.mk .pushObject (.list items) source] ⟨s, b⟩ ⟨.value :: s, b⟩ := by
  refine .one (.pushObject rfl rfl fun x inside => ?_) fun slot c found => ?_
  · obtain ⟨key, value, same, -⟩ := typed x inside
    exact ⟨key, value, same⟩
  · obtain ⟨key, value, inside, either⟩ := propertyMember found
    obtain ⟨_, _, same, keys, values⟩ := typed _ inside
    cases same
    rcases either with rfl | rfl
    · exact keys
    · exact values

theorem function {params : List Operand} {body : Code} (source : Option Nat)
    (typed : ∀ x ∈ params, ParamTyped x) (bodies : Typed none body) :
    Fragment [.mk .proc (.tuple (.list params) (.code body)) source] ⟨s, b⟩ ⟨.value :: s, b⟩ := by
  refine .one (.proc rfl rfl fun x inside => ?_) fun slot c found => ?_
  · obtain ⟨name, default, same, -⟩ := typed x inside
    exact ⟨name, default, same⟩
  · cases slot with
    | zero =>
      cases found
      exact bodies
    | succ slot =>
      obtain ⟨name, inside⟩ := argumentMember found
      obtain ⟨_, _, same, defaults⟩ := typed _ inside
      cases same
      exact defaults _ rfl

end Fragment

namespace Operators

theorem resolvedBinary {op : BinaryOp} {left right : Ty} {row : BinaryRow}
    (found : resolveBinary op left right = some row) : row.opcode.isBinary := by
  have all : ∀ row ∈ binaryTable, row.opcode.isBinary := by decide
  exact all row (List.mem_of_find?_eq_some found)

theorem resolvedUnary {op : UnaryOp} {operand : Ty} {row : UnaryRow}
    (found : resolveUnary op operand = some row) : row.opcode.isUnary := by
  have all : ∀ row ∈ unaryTable, row.opcode.isUnary := by decide
  exact all row (List.mem_of_find?_eq_some found)

theorem resolvedStep {op : StepOp} {operand : Ty} {row : StepRow}
    (found : resolveStep op operand = some row) : row.opcode.isUnary := by
  have all : ∀ row ∈ stepTable, row.opcode.isUnary := by decide
  exact all row (List.mem_of_find?_eq_some found)

end Operators

namespace Bound

variable {s : List Known} {b : Nat}

theorem pushFragment (m : Mark) {x : Operand} {v : Value} (constant : Value.ofOperand? x = some v) :
    Fragment [push m x] ⟨s, b⟩ ⟨.value :: s, b⟩ :=
  .flat constant (.push rfl constant trivial)

theorem nameFragment (m : Mark) (name : String) :
    Fragment [push m (.str name)] ⟨s, b⟩ ⟨.name :: s, b⟩ :=
  .flat rfl (.push rfl rfl ⟨name, rfl⟩)

theorem noneFragment (m : Mark) : Fragment [instr m .pushNone] ⟨s, b⟩ ⟨.value :: s, b⟩ :=
  .flat rfl (.pushNone rfl)

theorem loadFragment (m : Mark) (name : String) : Fragment (load m name) ⟨s, b⟩ ⟨.value :: s, b⟩ :=
  (nameFragment m name).append (.flat rfl (.load rfl))

theorem storeFragment (m : Mark) (name : String) (k : Known) :
    Fragment (store m name) ⟨k :: s, b⟩ ⟨.value :: s, b⟩ :=
  (nameFragment m name).append (.flat rfl (.store rfl))

theorem defineFragment (m : Mark) (name : String) (k : Known) :
    Fragment (define m name) ⟨k :: s, b⟩ ⟨s, b⟩ :=
  (nameFragment m name).append (.flat rfl (.define rfl))

theorem binaryFragment (m : Mark) {op : Opcode} (binary : op.isBinary) (k l : Known) :
    Fragment [instr m op] ⟨k :: l :: s, b⟩ ⟨.value :: s, b⟩ :=
  .flat rfl (.binary binary)

theorem unaryFragment (m : Mark) {op : Opcode} (unary : op.isUnary) (k : Known) :
    Fragment [instr m op] ⟨k :: s, b⟩ ⟨.value :: s, b⟩ :=
  .flat rfl (.unary unary)

theorem literalFragment (m : Mark) (value : Literal) :
    Fragment (literalCode m value) ⟨s, b⟩ ⟨.value :: s, b⟩ := by
  cases value with
  | none => exact noneFragment m
  | _ => exact pushFragment m rfl

theorem keyConstant (name : PropertyName) : ∃ v, Value.ofOperand? (keyOperand name) = some v := by
  cases name with
  | name text => exact ⟨.str text, rfl⟩
  | int n => exact ⟨.int n, rfl⟩

theorem stepFragment (m : Mark) (name : String) {op : Opcode} (unary : op.isUnary) :
    Fragment (stepCode m name op) ⟨s, b⟩ ⟨.value :: s, b⟩ :=
  ((((loadFragment m name).append (loadFragment m name)).append (unaryFragment m unary _)).append
    (storeFragment m name _)).append (.flat rfl (.pop rfl))

theorem procFragment (m body : Mark) {params : List Operand} {code : Code}
    (typed : ∀ x ∈ params, ParamTyped x) (fragment : Fragment code .start .start) :
    Fragment (procCode m body params code) ⟨s, b⟩ ⟨.value :: s, b⟩ := by
  have whole : Fragment (code ++ [instr body .pushNone, instr body .ret]) .start .start :=
    fragment.append ((noneFragment body).append (.flat rfl (.ret rfl)))
  exact .function _ typed whole.typed

theorem procShort {m body : Mark} {params : List Operand} {code : Code}
    (short : Short (procCode m body params code)) :
    operandsLongest params < 2 ^ 31 ∧ Short (code ++ [instr body .pushNone, instr body .ret]) := by
  have operand := short.head.1
  change (Operand.tuple (.list params) (.code (code ++ _))).longest < _ at operand
  rw [Operand.longest, Operand.longest, Operand.longest] at operand
  refine ⟨by omega, ?_⟩
  unfold Short longest
  rw [Operand.longest]
  omega

theorem operandsShort {x : Operand} {rest : List Operand}
    (short : operandsLongest (x :: rest) < 2 ^ 31) :
    x.longest < 2 ^ 31 ∧ operandsLongest rest < 2 ^ 31 := by
  rw [operandsLongest] at short
  omega

theorem operandCode {x : Operand} {code : Code} (short : (Operand.tuple x (.code code)).longest < 2 ^ 31) :
    Short code := by
  rw [Operand.longest] at short
  unfold Short longest
  omega

theorem operandCodes {a c : Code} (short : (Operand.tuple (.code a) (.code c)).longest < 2 ^ 31) :
    Short a ∧ Short c := by
  refine ⟨?_, operandCode short⟩
  rw [Operand.longest] at short
  unfold Short longest
  omega

theorem argOperandsCons (name : Option String) (value : Expr) (type : Ty) (rest : List Arg) :
    ∃ x, argOperands (.mk name value type :: rest) =
      .tuple x (.code value.code) :: argOperands rest := by
  cases name with
  | none => exact ⟨_, by rw [argOperands]⟩
  | some name => exact ⟨_, by rw [argOperands]⟩

-- The types in the bound tree play no part here, only that rows are those of the operator: the
-- stack below and the number of open scopes are any, so the parts follow one another.
mutual

theorem exprFragment (s : List Known) (b : Nat) :
    (e : Expr) → e.Resolved → Short e.code → Fragment e.code ⟨s, b⟩ ⟨.value :: s, b⟩
  | .literal note value, _, _ => literalFragment note.mark value
  | .ident note name _, _, _ => loadFragment note.mark name
  | .binary note op (some row) left right, ⟨found, lefts, rights⟩, short => by
    rw [Expr.code] at short ⊢
    obtain ⟨⟨shortLeft, shortRight⟩, -⟩ := short.append.imp_left Short.append
    exact ((exprFragment s b left lefts shortLeft).append
      (exprFragment _ b right rights shortRight)).append
        (binaryFragment note.mark (Operators.resolvedBinary found.symm) _ _)
  | .unary note op (some row) operand, ⟨found, resolved⟩, short => by
    rw [Expr.code] at short ⊢
    exact (exprFragment s b operand resolved short.append.1).append
      (unaryFragment note.mark (Operators.resolvedUnary found.symm) _)
  | .step note op name (some (row, symbol)), found, _ => by
    rw [Expr.code]
    exact stepFragment note.mark name (Operators.resolvedStep (found row symbol rfl))
  | .assign note name none target value, ⟨_, resolved⟩, short => by
    rw [Expr.code] at short ⊢
    exact (exprFragment s b value resolved short.append.1).append (storeFragment note.mark name _)
  | .assign note name (some op) (some ⟨symbol, some row⟩) value, ⟨found, resolved⟩, short => by
    rw [Expr.code] at short ⊢
    have shortValue := short.append.1.append.1.append.2
    exact (((loadFragment note.mark name).append
      (exprFragment _ b value resolved shortValue)).append
        (binaryFragment note.mark (Operators.resolvedBinary (found _ rfl).symm) _ _)).append
          (storeFragment note.mark name _)
  | .binary note _ none _ _, _, _ => noneFragment note.mark
  | .unary note _ none _, _, _ => noneFragment note.mark
  | .step note _ _ none, _, _ => noneFragment note.mark
  | .assign note _ (some _) none _, _, _ => noneFragment note.mark
  | .assign note _ (some _) (some ⟨_, none⟩) _, _, _ => noneFragment note.mark
  | .call note callee args, ⟨callees, given⟩, short => by
    rw [Expr.code] at short ⊢
    obtain ⟨shortCallee, shortCall⟩ := short.append
    have operand := shortCall.head.1
    change (Operand.list _).longest < _ at operand
    rw [Operand.longest] at operand
    exact (exprFragment s b callee callees shortCallee).append
      (.call _ _ (argsTyped args given operand))
  | .function note params _ body, ⟨defaults, bodies⟩, short => by
    rw [Expr.code] at short ⊢
    obtain ⟨shortParams, shortBody⟩ := procShort short
    exact procFragment note.mark body.mark (paramsTyped params defaults shortParams)
      (blockFragment 0 body bodies shortBody.append.1)
  | .object note properties, resolved, short => by
    rw [Expr.code] at short ⊢
    have operand := short.head.1
    change (Operand.list _).longest < _ at operand
    rw [Operand.longest] at operand
    exact .object _ (propertiesTyped properties resolved operand)
  | .member note base (.known name), ⟨bases, _⟩, short => by
    rw [Expr.code] at short ⊢
    obtain ⟨v, constant⟩ := keyConstant name
    exact (exprFragment s b base bases short.append.1).append
      ((pushFragment note.mark constant).append (.flat rfl (.getMember rfl)))
  | .member note base (.computed key), ⟨bases, keys⟩, short => by
    rw [Expr.code] at short ⊢
    obtain ⟨⟨shortBase, shortKey⟩, -⟩ := short.append.imp_left Short.append
    exact ((exprFragment s b base bases shortBase).append
      (exprFragment _ b key keys shortKey)).append (.flat rfl (.getMember rfl))
  | .grouping _ inner, resolved, short => by
    rw [Expr.code] at short ⊢
    exact exprFragment s b inner resolved short

theorem argsTyped : (args : List Arg) → argsResolved args →
    operandsLongest (argOperands args) < 2 ^ 31 → ∀ x ∈ argOperands args, ArgumentTyped x
  | [], _, _ => by
    rw [argOperands]
    exact fun _ inside => nomatch inside
  | .mk name value type :: rest, ⟨resolved, others⟩, short => by
    obtain ⟨x, operands⟩ := argOperandsCons name value type rest
    rw [operands] at short ⊢
    obtain ⟨shortValue, shortRest⟩ := operandsShort short
    have typed := (exprFragment [] 0 value resolved (operandCode shortValue)).typed
    exact List.forall_mem_cons.mpr ⟨⟨_, _, rfl, typed⟩, argsTyped rest others shortRest⟩

theorem paramsTyped : (params : List Param) → paramsResolved params →
    operandsLongest (paramOperands params) < 2 ^ 31 → ∀ x ∈ paramOperands params, ParamTyped x
  | [], _, _ => by
    rw [paramOperands]
    exact fun _ inside => nomatch inside
  | .mk symbol none :: rest, others, short => by
    rw [paramOperands] at short ⊢
    exact List.forall_mem_cons.mpr ⟨⟨_, _, rfl, fun _ none => nomatch none⟩,
      paramsTyped rest others (operandsShort short).2⟩
  | .mk symbol (some default) :: rest, ⟨resolved, others⟩, short => by
    rw [paramOperands] at short ⊢
    obtain ⟨shortDefault, shortRest⟩ := operandsShort short
    have typed := (exprFragment [] 0 default resolved (operandCode shortDefault)).typed
    refine List.forall_mem_cons.mpr ⟨⟨_, _, rfl, fun c same => ?_⟩,
      paramsTyped rest others shortRest⟩
    cases same
    exact typed

theorem propertiesTyped : (properties : List Property) → propertiesResolved properties →
    operandsLongest (propertyOperands properties) < 2 ^ 31 →
    ∀ x ∈ propertyOperands properties, PropertyTyped x
  | [], _, _ => by
    rw [propertyOperands]
    exact fun _ inside => nomatch inside
  | .mk (.known name) value _ :: rest, ⟨_, resolved, others⟩, short => by
    rw [propertyOperands] at short ⊢
    obtain ⟨shortValue, shortRest⟩ := operandsShort short
    obtain ⟨v, constant⟩ := keyConstant name
    have keys : Fragment [push value.mark (keyOperand name)] .start ⟨[.value], 0⟩ :=
      pushFragment value.mark constant
    have values := (exprFragment [] 0 value resolved (operandCode shortValue)).typed
    exact List.forall_mem_cons.mpr ⟨⟨_, _, rfl, keys.typed, values⟩,
      propertiesTyped rest others shortRest⟩
  | .mk (.computed key) value _ :: rest, ⟨keys, resolved, others⟩, short => by
    rw [propertyOperands] at short ⊢
    obtain ⟨shortBoth, shortRest⟩ := operandsShort short
    obtain ⟨shortKey, shortValue⟩ := operandCodes shortBoth
    have typedKey := (exprFragment [] 0 key keys shortKey).typed
    have typed := (exprFragment [] 0 value resolved shortValue).typed
    exact List.forall_mem_cons.mpr ⟨⟨_, _, rfl, typedKey, typed⟩,
      propertiesTyped rest others shortRest⟩

theorem stmtFragment (b : Nat) :
    (s : Stmt) → s.Resolved → Short s.code → Fragment s.code ⟨[], b⟩ ⟨[], b⟩
  | .letDecl m symbol none, _, _ => by
    rw [Stmt.code]
    exact (noneFragment m).append (defineFragment m symbol.name _)
  | .letDecl m symbol (some init), resolved, short => by
    rw [Stmt.code] at short ⊢
    exact (exprFragment [] b init resolved short.append.1).append (defineFragment m symbol.name _)
  | .functionDecl m symbol params _ body, ⟨defaults, bodies⟩, short => by
    rw [Stmt.code] at short ⊢
    obtain ⟨shortParams, shortBody⟩ := procShort short.append.1
    exact (procFragment m body.mark (paramsTyped params defaults shortParams)
      (blockFragment 0 body bodies shortBody.append.1)).append (defineFragment m symbol.name _)
  | .typeAlias _, _, _ => by
    rw [Stmt.code]
    exact .nil
  | .ifElse m condition thenBranch none, ⟨conditions, branches⟩, short => by
    rw [Stmt.code] at short ⊢
    obtain ⟨shortCondition, shortRest⟩ := short.append
    exact branchFragment (exprFragment [] b condition conditions shortCondition)
      (blockFragment b thenBranch branches shortRest.head.2) short.bounds.1
  | .ifElse m condition thenBranch (some elseBranch), ⟨conditions, branches, others⟩, short => by
    rw [Stmt.code] at short ⊢
    obtain ⟨shortFirst, shortSecond⟩ := short.append
    obtain ⟨shortCondition, shortBranch⟩ := shortFirst.append
    exact choiceFragment (exprFragment [] b condition conditions shortCondition)
      (blockFragment b thenBranch branches shortBranch.head.2)
      (stmtFragment b elseBranch others shortSecond.head.2) short.bounds.1
  | .whileLoop m condition body, ⟨conditions, bodies⟩, short => by
    rw [Stmt.code] at short ⊢
    obtain ⟨shortCondition, shortBody⟩ := short.append.1.append
    exact loopFragment (exprFragment [] b condition conditions shortCondition)
      (blockFragment b body bodies shortBody.head.2) short.bounds.1
  | .ret m none, _, _ => by
    rw [Stmt.code]
    exact (noneFragment m).append (.flat rfl (.ret rfl))
  | .ret m (some value), resolved, short => by
    rw [Stmt.code] at short ⊢
    exact (exprFragment [] b value resolved short.append.1).append (.flat rfl (.ret rfl))
  | .block body, resolved, short => by
    rw [Stmt.code] at short ⊢
    exact blockFragment b body resolved short
  | .expr m value, resolved, short => by
    rw [Stmt.code] at short ⊢
    exact (exprFragment [] b value resolved short.append.1).append (.flat rfl (.pop rfl))

theorem blockFragment (b : Nat) :
    (body : Block) → body.Resolved → Short body.code → Fragment body.code ⟨[], b⟩ ⟨[], b⟩
  | .mk m _ body, resolved, short => by
    rw [Block.code] at short ⊢
    have first : Fragment [instr m .beginScope] ⟨[], b⟩ ⟨[], b + 1⟩ := .flat rfl (.beginScope rfl)
    have last : Fragment [instr m .endScope] ⟨[], b + 1⟩ ⟨[], b⟩ := .flat rfl (.endScope rfl)
    exact (first.append (stmtsFragment (b + 1) body resolved short.append.1.head.2)).append last

theorem stmtsFragment (b : Nat) :
    (body : List Stmt) → stmtsResolved body → Short (stmtsCode body) →
      Fragment (stmtsCode body) ⟨[], b⟩ ⟨[], b⟩
  | [], _, _ => by
    rw [stmtsCode]
    exact .nil
  | s :: rest, ⟨resolved, others⟩, short => by
    rw [stmtsCode] at short ⊢
    obtain ⟨shortFirst, shortRest⟩ := short.append
    exact (stmtFragment b s resolved shortFirst).append (stmtsFragment b rest others shortRest)

end

end Bound

end Quill
