import Quill.Proofs.Binding.Clean
import Quill.Proofs.Checking.Covered
import Quill.Proofs.Soundness.Generated

/-! What a program without errors writes to variables. Initializers and assigned values fit the type
of the variable, since each is checked. A step is not: the type of the variable fits the operator's,
and the operator's fits that of the variable unless literals or intersections narrow it. -/
namespace Quill

inductive Ty.Broad : Ty → Prop where
  | any : Broad any
  | parenthesized {inner : Ty} (broad : inner.Broad) : Broad (parenthesized inner)
  | union {types : List Ty} (each : ∀ t ∈ types, t.Broad) : Broad (union types)
  | core {t : Ty} (core : t.Core) (other : ∀ v, t ≠ literal v) : Broad t

theorem Ty.Broad.takes {t : Ty} {p : Primitive} (broad : t.Broad)
    (fits : t.assignableTo (primitive p)) : (primitive p).assignableTo t := by
  induction broad with
  | any => exact anyRight _
  | parenthesized _ ih =>
    rw [parensLeft] at fits
    simpa [parensRight] using ih fits
  | union _ ih =>
    rcases (unionLeft _ _).mp fits with none | ⟨t, held, fits⟩
    · cases none
    · have single : (primitive p).Single := trivial
      exact (unionRight single).mpr ⟨t, held, ih t held fits⟩
  | core core other =>
    have whole : (primitive p).Core := trivial
    cases (matches_iff core whole).mp fits with
    | primitive => exact fits
    | kind v => exact (other v rfl).elim

namespace Bound

inductive Writes (nodes : List Node) (n : Node) : Ty → VarSymbol → Prop where
  | initializer {init : Node} {symbol : VarSymbol} {type : Ty} (declares : n.outcome = .letDecl symbol)
      (held : init ∈ nodes) (below : init.mark.id ∈ n.children) (typed : init.type = some type) :
      Writes nodes n type symbol
  | assignment {target : Target} {type : Ty} (assigns : n.outcome = .assign target)
      (typed : n.type = some type) : Writes nodes n type target.symbol
  | step {row : StepRow} {symbol : VarSymbol} (steps : n.outcome = .step row symbol) :
      Writes nodes n row.operand symbol

def Node.Fits (nodes : List Node) (n : Node) : Prop :=
  match n.outcome with
  | .letDecl symbol => ∀ id ∈ n.children, ∃ init ∈ nodes, init.mark.id = id ∧
      ∀ type ∈ init.type, type.assignableTo symbol.type
  | .assign target => ∀ type ∈ n.type, type.assignableTo target.symbol.type
  | .step row symbol => row ∈ Operators.stepTable ∧ symbol.type.assignableTo row.operand
  | _ => True

def Fitting (nodes : List Node) : Prop := ∀ n ∈ nodes, n.Fits nodes

section
variable {xs ys : List Node} {n : Node}

theorem Node.Fits.among (fits : n.Fits xs) (within : xs ⊆ ys) : n.Fits ys := by
  unfold Fits at fits ⊢
  split
  · rename_i symbol declares
    simp only [declares] at fits
    intro id below
    obtain ⟨init, held, rest⟩ := fits id below
    exact ⟨init, within held, rest⟩
  all_goals simp_all

namespace Fitting

theorem nil : Fitting [] := by simp [Fitting]

theorem append (first : Fitting xs) (second : Fitting ys) : Fitting (xs ++ ys) := by
  intro n held
  rcases List.mem_append.mp held with held | held
  · exact (first n held).among (List.subset_append_left xs ys)
  · exact (second n held).among (List.subset_append_right xs ys)

theorem node (parts : Fitting xs) (own : n.Fits xs) : Fitting (xs ++ [n]) := by
  intro m held
  rcases List.mem_append.mp held with held | held
  · exact (parts m held).among (List.subset_append_left _ _)
  · cases List.mem_singleton.mp held
    exact own.among (List.subset_append_left _ _)

end Fitting

end

end Bound

open Bound (Fitting checkExpr checkStmt)

mutual

theorem exprFitting {expected : Option Ty} {t u : SymbolTable} {e : Expr} {b : Bound.Expr} :
    ExprBinds expected t e b u → (checkExpr b).hasErrors = false → Fitting b.nodes
  | .literal .., _ | .ident .., _ => by
    rw [Bound.Expr.nodes]
    exact Fitting.nil.node trivial
  | .binary _ lefts rights _, clean => by
    simp only [checkExpr, Diagnostics.cleanAppend] at clean
    rw [Bound.Expr.nodes]
    exact ((exprFitting lefts clean.1.1.1).append (exprFitting rights clean.1.1.2)).node trivial
  | .unary _ operands _, clean => by
    simp only [checkExpr, Diagnostics.cleanAppend] at clean
    rw [Bound.Expr.nodes]
    exact (exprFitting operands clean.1).node trivial
  | .step _ _ _ _ resolved, _ => by
    rw [Bound.Expr.nodes]
    have fits := List.find?_some resolved
    rw [Bool.and_eq_true] at fits
    exact Fitting.nil.node ⟨List.mem_of_find?_eq_some resolved, fits.2⟩
  | .assign _ _ _ values, clean | .update _ _ _ values _, clean => by
    simp only [checkExpr, Bound.checkAssign, Diagnostics.cleanAppend] at clean
    rw [Bound.Expr.nodes]
    refine (exprFitting values clean.1).node fun type typed => ?_
    cases typed
    exact obligationMet clean.2.2
  | .call _ callees _ given, clean => by
    simp only [checkExpr, Diagnostics.cleanAppend] at clean
    rw [Bound.Expr.nodes]
    exact ((exprFitting callees clean.1.1).append (argsFitting given clean.1.2)).node trivial
  | .function _ _ taken bodies, clean => by
    simp only [checkExpr, Diagnostics.cleanAppend] at clean
    rw [Bound.Expr.nodes]
    exact ((paramsFitting taken clean.1.1.1).append
      (blockFitting bodies clean.1.1.2)).node trivial
  | .object _ listed, clean => by
    simp only [checkExpr, Diagnostics.cleanAppend] at clean
    rw [Bound.Expr.nodes]
    exact (propertiesFitting listed clean.1).node trivial
  | .member _ objects keys _, clean => by
    simp only [checkExpr, Diagnostics.cleanAppend] at clean
    rw [Bound.Expr.nodes]
    exact ((exprFitting objects clean.1).append (keyFitting keys clean.2)).node trivial
  | .grouping _ inners, clean => by
    rw [checkExpr] at clean
    rw [Bound.Expr.nodes]
    exact (exprFitting inners clean).node trivial

theorem argsFitting {types : List Ty} {t u : SymbolTable} {args : List Arg}
    {args' : List Bound.Arg} : ArgsBind types t args args' u →
    (Bound.checkArgValues args').hasErrors = false → Fitting (Bound.argNodes args')
  | .nil, _ => .nil
  | .cons _ values others, clean => by
    simp only [Bound.checkArgValues, Diagnostics.cleanAppend] at clean
    rw [Bound.argNodes]
    exact (exprFitting values clean.1).append (argsFitting others clean.2)

theorem paramsFitting {span : Span} {t u : SymbolTable} {params : List Param}
    {params' : List Bound.Param} : ParamsBind span t params params' u →
    (Bound.checkParamDefaults params').hasErrors = false → Fitting (Bound.paramNodes params')
  | .nil, _ => .nil
  | .required _ _ others, clean => by
    rw [Bound.checkParamDefaults] at clean
    rw [Bound.paramNodes]
    exact paramsFitting others clean
  | .optional _ _ defaults others, clean => by
    simp only [Bound.checkParamDefaults, Diagnostics.cleanAppend] at clean
    rw [Bound.paramNodes]
    exact (exprFitting defaults clean.1).append (paramsFitting others clean.2)

theorem keyFitting {t u : SymbolTable} {key : Key} {key' : Bound.Key} :
    KeyBinds t key key' u → (Bound.checkKey key').hasErrors = false → Fitting key'.nodes
  | .known _, _ => .nil
  | .computed keys, clean => by
    rw [Bound.checkKey] at clean
    rw [Bound.Key.nodes]
    exact exprFitting keys clean

theorem propertiesFitting {expected : Option Ty} {shape last : Shape} {t u : SymbolTable}
    {properties : List Property} {properties' : List Bound.Property} :
    PropertiesBind expected shape t properties properties' last u →
    (Bound.checkPropertyValues properties').hasErrors = false →
    Fitting (Bound.propertyNodes properties')
  | .nil, _ => .nil
  | .cons keys values _ others, clean => by
    simp only [Bound.checkPropertyValues, Diagnostics.cleanAppend] at clean
    rw [Bound.propertyNodes]
    exact ((keyFitting keys clean.1.1).append (exprFitting values clean.1.2)).append
      (propertiesFitting others clean.2)

theorem stmtFitting {t u : SymbolTable} {s : Stmt} {s' : Bound.Stmt} :
    StmtBinds t s s' u → (checkStmt s').hasErrors = false → Fitting s'.nodes
  | .uninitialized .., _ => by
    rw [Bound.Stmt.nodes]
    exact Fitting.nil.node fun _ below => by cases below
  | .typeAlias .., _ | .bare _, _ => by
    rw [Bound.Stmt.nodes]
    exact Fitting.nil.node trivial
  | .initialized _ _ _ _ inits, clean => by
    simp only [checkStmt, Diagnostics.cleanAppend] at clean
    rw [Bound.Stmt.nodes]
    refine (exprFitting inits clean.1).node fun id below => ?_
    cases List.mem_singleton.mp below
    refine ⟨_, Bound.Expr.nodeInside, congrArg Mark.id (Bound.Expr.nodeMark _), fun type typed => ?_⟩
    cases (Bound.Expr.nodeType _).symm.trans typed
    exact obligationMet clean.2
  | .functionDecl _ _ _ _ taken bodies, clean => by
    simp only [checkStmt, Diagnostics.cleanAppend] at clean
    rw [Bound.Stmt.nodes]
    exact ((paramsFitting taken clean.1.1.1).append
      (blockFitting bodies clean.1.1.2)).node trivial
  | .branch _ conditions thens, clean => by
    simp only [checkStmt, Diagnostics.cleanAppend] at clean
    rw [Bound.Stmt.nodes]
    exact ((exprFitting conditions clean.1).append (blockFitting thens clean.2)).node trivial
  | .choice _ conditions thens elses, clean => by
    simp only [checkStmt, Diagnostics.cleanAppend] at clean
    rw [Bound.Stmt.nodes]
    exact (((exprFitting conditions clean.1.1).append (blockFitting thens clean.1.2)).append
      (stmtFitting elses clean.2)).node trivial
  | .loop _ conditions bodies, clean => by
    simp only [checkStmt, Diagnostics.cleanAppend] at clean
    rw [Bound.Stmt.nodes]
    exact ((exprFitting conditions clean.1).append (blockFitting bodies clean.2)).node trivial
  | .ret _ values, clean | .expr _ values, clean => by
    rw [checkStmt] at clean
    rw [Bound.Stmt.nodes]
    exact (exprFitting values clean).node trivial
  | .block bodies, clean => by
    rw [checkStmt] at clean
    rw [Bound.Stmt.nodes]
    exact blockFitting bodies clean

theorem blockFitting {t u : SymbolTable} {body : Block} {body' : Bound.Block} :
    BlockBinds t body body' u → (Bound.checkBlock body').hasErrors = false → Fitting body'.nodes
  | .mk _ bodies, clean => by
    rw [Bound.checkBlock] at clean
    rw [Bound.Block.nodes]
    exact (stmtsFitting bodies clean).node trivial

theorem stmtsFitting {t u : SymbolTable} {body : List Stmt} {body' : List Bound.Stmt} :
    StmtsBind t body body' u → (Bound.checkStmts body').hasErrors = false →
    Fitting (Bound.stmtNodes body')
  | .nil, _ => .nil
  | .cons first others, clean => by
    simp only [Bound.checkStmts, Diagnostics.cleanAppend] at clean
    rw [Bound.stmtNodes]
    exact (stmtFitting first clean.1).append (stmtsFitting others clean.2)

end

/-- Whatever a program without errors writes to a variable has a static type that fits it, but for
steps of variables of narrow types; there only the type of the variable fits the operator's. -/
theorem storesChecked {source : String} {program : Program}
    (parsed : parseSource source = .ok program)
    (accepted : ((bind program).2 ++ Bound.check (bind program).1 : Diagnostics).hasErrors = false)
    {n : Bound.Node} (held : n ∈ Bound.stmtNodes (bind program).1) {type : Ty} {symbol : VarSymbol}
    (writes : Bound.Writes (Bound.stmtNodes (bind program).1) n type symbol) :
    type.assignableTo symbol.type ∨ ¬ symbol.type.Broad ∧
      ∃ row, n.outcome = .step row symbol ∧ symbol.type.assignableTo row.operand := by
  obtain ⟨quiet, clean⟩ := Diagnostics.cleanParts accepted
  obtain ⟨_, binds⟩ := cleanBinds quiet
  have fits := stmtsFitting binds clean n held
  unfold Bound.Node.Fits at fits
  cases writes with
  | initializer declares inside below typed =>
    simp only [declares] at fits
    obtain ⟨init, among, same, fits⟩ := fits _ below
    have one := List.inj_on_of_nodup_map (boundReached parsed).1 among inside same
    exact .inl (fits type (one ▸ typed))
  | assignment assigns typed =>
    simp only [assigns] at fits
    exact .inl (fits type typed)
  | @step row _ steps =>
    simp only [steps] at fits
    obtain ⟨listed, fits⟩ := fits
    obtain ⟨kind, same⟩ := Operators.stepRow row listed
    by_cases broad : symbol.type.Broad
    · rw [same] at fits ⊢
      exact .inl (broad.takes fits)
    · exact .inr ⟨broad, row, steps, fits⟩

end Quill
