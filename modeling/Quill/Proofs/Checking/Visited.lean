import Quill.Check
import Quill.Proofs.Checking.Covered

/-! What is checked of a bound program. Every node that is reached without going through an
unresolved one is visited once, its children before it, and what is reported is what each has to
report itself. -/
namespace Quill

namespace Bound

inductive Part where
  | expr (e : Expr)
  | stmt (s : Stmt)

def Part.node : Part → Node
  | expr e => e.node
  | stmt s => s.node

def Expr.duties : Expr → Diagnostics
  | .binary _ _ (some row) left right =>
    let what := "operand of '" ++ row.op.text ++ "'"
    obligation .t0003 left.span what left.type row.left ++
      obligation .t0003 right.span what right.type row.right
  | .unary _ _ (some row) operand =>
    obligation .t0003 operand.span ("operand of '" ++ row.op.text ++ "'") operand.type row.operand
  | .assign note _ _ (some target) _ => checkAssign note target
  | .call _ _ args => checkArgs args
  | .function _ params declared body => checkDefaults params ++ checkReturns declared body
  | .object _ properties => checkProperties properties
  | _ => []

def Stmt.duties : Stmt → Diagnostics
  | .letDecl _ symbol (some init) =>
    obligation .t0001 init.span ("initializer of '" ++ symbol.name ++ "'") init.type symbol.type
  | .functionDecl _ _ params declared body => checkDefaults params ++ checkReturns declared body
  | _ => []

def Part.duties : Part → Diagnostics
  | expr e => e.duties
  | stmt s => s.duties

def Inspects (nodes : List Node) (roots : List Nat) (checks : Diagnostics) : Prop :=
  ∃ parts : List Part, (parts.map Part.node).Sublist nodes ∧
    Spans ((parts.map Part.node).map Node.family) roots ∧ checks = parts.flatMap Part.duties

namespace Inspects

variable {xs ys : List Node} {roots others : List Nat} {checks checks' : Diagnostics}

theorem none (xs : List Node) : Inspects xs [] [] :=
  ⟨[], List.nil_sublist xs, .nil, rfl⟩

theorem append (first : Inspects xs roots checks) (second : Inspects ys others checks') :
    Inspects (xs ++ ys) (roots ++ others) (checks ++ checks') := by
  obtain ⟨parts, among, spans, rfl⟩ := first
  obtain ⟨parts', among', spans', rfl⟩ := second
  refine ⟨parts ++ parts', ?_, ?_, List.flatMap_append.symm⟩
  · rw [List.map_append]
    exact among.append among'
  · rw [List.map_append, List.map_append]
    exact spans.append spans'

theorem node (parts : Inspects xs roots checks) (p : Part) (below : p.node.children = roots)
    (own : checks' = checks ++ p.duties) : Inspects (xs ++ [p.node]) [p.node.mark.id] checks' := by
  subst below own
  obtain ⟨parts, among, spans, rfl⟩ := parts
  refine ⟨parts ++ [p], ?_, ?_, by simp⟩
  · rw [List.map_append]
    exact among.append (.refl _)
  · rw [List.map_append, List.map_append]
    exact spans.node p.node.mark.id

end Inspects

mutual

theorem exprInspects : (e : Expr) → Inspects e.nodes [e.id] (checkExpr e)
  | .literal note value => by
    rw [Expr.nodes, checkExpr]
    exact (Inspects.none []).node (.expr (.literal note value)) rfl rfl
  | .ident note name found => by
    rw [Expr.nodes, checkExpr]
    cases found with
    | none => exact (Inspects.none []).node (.expr (.ident note name none)) rfl rfl
    | some symbol => exact (Inspects.none []).node (.expr (.ident note name (some symbol))) rfl rfl
  | .step note op name resolved => by
    rw [Expr.nodes, checkExpr]
    cases resolved with
    | none => exact (Inspects.none []).node (.expr (.step note op name none)) rfl rfl
    | some found => exact (Inspects.none []).node (.expr (.step note op name (some found))) rfl rfl
  | .binary note op none left right => by
    rw [Expr.nodes, checkExpr]
    exact (Inspects.none _).node (.expr (.binary note op none left right)) rfl rfl
  | .binary note op (some row) left right => by
    rw [Expr.nodes, checkExpr]
    exact ((exprInspects left).append (exprInspects right)).node
      (.expr (.binary note op (some row) left right)) rfl (List.append_assoc _ _ _)
  | .unary note op none operand => by
    rw [Expr.nodes, checkExpr]
    exact (Inspects.none _).node (.expr (.unary note op none operand)) rfl rfl
  | .unary note op (some row) operand => by
    rw [Expr.nodes, checkExpr]
    exact (exprInspects operand).node (.expr (.unary note op (some row) operand)) rfl rfl
  | .assign note name op none value => by
    rw [Expr.nodes, checkExpr]
    exact (Inspects.none _).node (.expr (.assign note name op none value)) rfl rfl
  | .assign note name op (some target) value => by
    rw [Expr.nodes, checkExpr]
    exact (exprInspects value).node (.expr (.assign note name op (some target) value)) rfl rfl
  | .call note callee args => by
    rw [Expr.nodes, checkExpr]
    exact ((exprInspects callee).append (argsInspect args)).node
      (.expr (.call note callee args)) rfl rfl
  | .function note params declared body => by
    rw [Expr.nodes, checkExpr]
    exact ((paramsInspect params).append (blockInspects body)).node
      (.expr (.function note params declared body)) rfl (List.append_assoc _ _ _)
  | .object note properties => by
    rw [Expr.nodes, checkExpr]
    exact (propertiesInspect properties).node (.expr (.object note properties)) rfl rfl
  | .member note base key => by
    rw [Expr.nodes, checkExpr]
    exact ((exprInspects base).append (keyInspects key)).node (.expr (.member note base key)) rfl
      (List.append_nil _).symm
  | .grouping note inner => by
    rw [Expr.nodes, checkExpr]
    exact (exprInspects inner).node (.expr (.grouping note inner)) rfl (List.append_nil _).symm

theorem argsInspect : (args : List Arg) →
    Inspects (argNodes args) (args.map fun a => a.value.id) (checkArgValues args)
  | [] => .none _
  | .mk _ value _ :: rest => by
    rw [argNodes, checkArgValues]
    exact (exprInspects value).append (argsInspect rest)

theorem paramsInspect : (params : List Param) → Inspects (paramNodes params)
    (params.filterMap fun p => p.default.map Expr.id) (checkParamDefaults params)
  | [] => .none _
  | .mk _ none :: rest => by
    rw [paramNodes, checkParamDefaults]
    exact paramsInspect rest
  | .mk _ (some default) :: rest => by
    rw [paramNodes, checkParamDefaults]
    exact (exprInspects default).append (paramsInspect rest)

theorem keyInspects : (key : Key) → Inspects key.nodes key.ids (checkKey key)
  | .known _ => .none _
  | .computed key => by
    rw [Key.nodes, checkKey]
    exact exprInspects key

theorem propertiesInspect : (properties : List Property) → Inspects (propertyNodes properties)
    (properties.flatMap Property.ids) (checkPropertyValues properties)
  | [] => .none _
  | .mk key value _ :: rest => by
    rw [propertyNodes, checkPropertyValues]
    exact ((keyInspects key).append (exprInspects value)).append (propertiesInspect rest)

theorem stmtInspects : (s : Stmt) → Inspects s.nodes [s.mark.id] (checkStmt s)
  | .letDecl mark symbol none => by
    rw [Stmt.nodes, checkStmt]
    exact (Inspects.none []).node (.stmt (.letDecl mark symbol none)) rfl rfl
  | .letDecl mark symbol (some init) => by
    rw [Stmt.nodes, checkStmt]
    exact (exprInspects init).node (.stmt (.letDecl mark symbol (some init))) rfl rfl
  | .functionDecl mark symbol params declared body => by
    rw [Stmt.nodes, checkStmt]
    exact ((paramsInspect params).append (blockInspects body)).node
      (.stmt (.functionDecl mark symbol params declared body)) rfl (List.append_assoc _ _ _)
  | .typeAlias mark => by
    rw [Stmt.nodes, checkStmt]
    exact (Inspects.none []).node (.stmt (.typeAlias mark)) rfl rfl
  | .ifElse mark condition thenBranch none => by
    rw [Stmt.nodes, checkStmt]
    exact ((exprInspects condition).append (blockInspects thenBranch)).node
      (.stmt (.ifElse mark condition thenBranch none)) rfl (List.append_nil _).symm
  | .ifElse mark condition thenBranch (some elseBranch) => by
    rw [Stmt.nodes, checkStmt]
    exact (((exprInspects condition).append (blockInspects thenBranch)).append
      (stmtInspects elseBranch)).node
      (.stmt (.ifElse mark condition thenBranch (some elseBranch))) rfl (List.append_nil _).symm
  | .whileLoop mark condition body => by
    rw [Stmt.nodes, checkStmt]
    exact ((exprInspects condition).append (blockInspects body)).node
      (.stmt (.whileLoop mark condition body)) rfl (List.append_nil _).symm
  | .ret mark none => by
    rw [Stmt.nodes, checkStmt]
    exact (Inspects.none []).node (.stmt (.ret mark none)) rfl rfl
  | .ret mark (some value) => by
    rw [Stmt.nodes, checkStmt]
    exact (exprInspects value).node (.stmt (.ret mark (some value))) rfl (List.append_nil _).symm
  | .block body => by
    rw [Stmt.nodes, checkStmt]
    exact blockInspects body
  | .expr mark value => by
    rw [Stmt.nodes, checkStmt]
    exact (exprInspects value).node (.stmt (.expr mark value)) rfl (List.append_nil _).symm

theorem blockInspects : (b : Block) → Inspects b.nodes [b.mark.id] (checkBlock b)
  | .mk mark type body => by
    rw [Block.nodes, checkBlock]
    exact (stmtsInspect body).node (.stmt (.block (.mk mark type body))) rfl
      (List.append_nil _).symm

theorem stmtsInspect : (body : List Stmt) → Inspects (stmtNodes body)
    (body.map fun s => s.mark.id) (checkStmts body)
  | [] => .none _
  | s :: rest => by
    rw [stmtNodes, checkStmts]
    exact (stmtInspects s).append (stmtsInspect rest)

end

end Bound

theorem boundFamilyIds (nodes : List Bound.Node) :
    (nodes.map Bound.Node.family).map Family.id = nodes.map (·.mark.id) := by
  simp [Bound.Node.family, Function.comp_def]

theorem boundFamilies {nodes : List Node} {bound : List Bound.Node}
    (stand : List.Forall₂ BoundAs nodes bound) (resolved : ∀ n ∈ bound, n.outcome ≠ .unresolved) :
    bound.map Bound.Node.family = nodes.map Node.family := by
  induction stand with
  | nil => rfl
  | cons first _ ih =>
    obtain ⟨here, others⟩ := List.forall_mem_cons.mp resolved
    simp [Bound.Node.family, Node.family, first.mark, first.children.resolve_right here, ih others]

/-- Where every node is resolved, the bound tree leads where the syntax tree does. -/
theorem resolvedReaches {source : String} {program : Program}
    (parsed : parseSource source = .ok program)
    (resolved : ∀ n ∈ Bound.stmtNodes (bind program).1, n.outcome ≠ .unresolved) (id : Nat) :
    Reaches ((Bound.stmtNodes (bind program).1).map Bound.Node.family) program.roots id ↔
      Reaches (program.nodes.map Node.family) program.roots id := by
  obtain ⟨-, outline, within, -, spans, stand⟩ := bindStmtsCovers program ⟨.initial, []⟩
  change Spans _ program.roots at spans
  change List.Forall₂ BoundAs outline (Bound.stmtNodes (bind program).1) at stand
  have distinct := parsedDistinct parsed
  rw [← familyIds] at distinct
  have among := within.map Node.family
  rw [boundFamilies stand resolved, spans.exactly (.refl _) (distinct.sublist (among.map _))]
  exact (spans.exactly among distinct).symm

/-- What a check of a program that parses reports is what the nodes have to report that are reached
through resolved ones, each once. -/
theorem checkVisits {source : String} {program : Program}
    (parsed : parseSource source = .ok program) : ∃ visited : List Bound.Part,
    Bound.check (bind program).1 = visited.flatMap Bound.Part.duties ∧
      (visited.map Bound.Part.node).Sublist (Bound.stmtNodes (bind program).1) ∧
      ((visited.map Bound.Part.node).map (·.mark.id)).Nodup ∧
      ∀ id, id ∈ (visited.map Bound.Part.node).map (·.mark.id) ↔
        Reaches ((Bound.stmtNodes (bind program).1).map Bound.Node.family) program.roots id := by
  obtain ⟨visited, among, spans, checks⟩ := Bound.stmtsInspect (bind program).1
  have distinct := (boundReached parsed).1
  have roots : (bind program).1.map (fun s => s.mark.id) = program.roots :=
    (bindStmtsCovers program ⟨.initial, []⟩).same
  rw [roots] at spans
  refine ⟨visited, checks, among, distinct.sublist (among.map _), fun id => ?_⟩
  rw [← boundFamilyIds] at distinct ⊢
  exact (spans.exactly (among.map _) distinct).symm

end Quill
