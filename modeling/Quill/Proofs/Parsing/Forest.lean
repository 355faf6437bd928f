import Quill.Proofs.Parsing.Numbered
import Mathlib.Data.List.Perm.Subperm

/-! Parsed programs as forests. A node is made when the trees of its children stand, and no other
node takes these up: children have smaller numbers, and no number is referred to twice. -/
namespace Quill

def NodeKey.ids : NodeKey → List Nat
  | .known _ => []
  | .computed key => [key]

def NodeKind.children : NodeKind → List Nat
  | .letDecl _ _ _ init => init.toList
  | .functionDecl _ params _ body | .function params _ body =>
    params.filterMap NodeParam.default ++ [body]
  | .ifElse condition thenBranch elseBranch => [condition, thenBranch] ++ elseBranch.toList
  | .whileLoop condition body => [condition, body]
  | .ret value => value.toList
  | .block body => body
  | .binary _ left right => [left, right]
  | .exprStmt value | .unary _ value | .assign _ _ value | .grouping value => [value]
  | .call callee args => callee :: args.map (·.2)
  | .object properties => properties.flatMap fun p => p.1.ids ++ [p.2]
  | .member base key => base :: key.ids
  | .typeAlias .. | .literal .. | .ident .. | .step .. => []

inductive Grown : List Node → List Nat → Prop where
  | nil : Grown [] []
  | append {xs ys : List Node} {roots others : List Nat} (first : Grown xs roots)
      (second : Grown ys others) : Grown (xs ++ ys) (roots ++ others)
  | node {xs : List Node} {roots : List Nat} {n : Node} (parts : Grown xs roots)
      (below : n.kind.children = roots) : Grown (xs ++ [n]) [n.mark.id]
  -- The variable of a step is made, but nothing refers to it.
  | name {mark : Mark} {name : String} : Grown [⟨mark, .ident name⟩] []

namespace Grown

variable {nodes : List Node} {roots : List Nat}

theorem rootsAmong (grown : Grown nodes roots) : roots.Sublist (nodes.map (·.mark.id)) := by
  induction grown with
  | nil => exact .slnil
  | append _ _ ih ih' =>
    rw [List.map_append]
    exact ih.append ih'
  | node =>
    rw [List.map_append]
    exact List.sublist_append_right _ _
  | name => exact List.nil_sublist _

theorem refersAmong (grown : Grown nodes roots) :
    (nodes.flatMap (·.kind.children) ++ roots).Subperm (nodes.map (·.mark.id)) := by
  induction grown with
  | nil => exact List.Subperm.refl _
  | @append xs ys roots others _ _ ih ih' =>
    rw [List.map_append, List.flatMap_append, List.append_assoc]
    have moved : (ys.flatMap (·.kind.children) ++ (roots ++ others)).Perm
        (roots ++ (ys.flatMap (·.kind.children) ++ others)) := List.perm_append_comm_assoc _ _ _
    refine (moved.append_left _).subperm.trans ?_
    rw [← List.append_assoc]
    exact ih.append ih'
  | node _ below ih =>
    -- What were the roots are its children now, and it is the one root.
    rw [List.map_append, List.flatMap_append, List.flatMap_singleton, below]
    exact ih.append (.refl _)
  | name => exact List.nil_subperm

theorem childrenBelow (grown : Grown nodes roots)
    (ordered : (nodes.map (·.mark.id)).Pairwise (· < ·)) :
    ∀ n ∈ nodes, ∀ child ∈ n.kind.children, child < n.mark.id := by
  -- Where numbers are given out in order, children have theirs before their parents.
  induction grown with
  | nil => simp
  | append _ _ ih ih' =>
    rw [List.map_append, List.pairwise_append] at ordered
    intro n held
    rcases List.mem_append.mp held with held | held
    · exact ih ordered.1 n held
    · exact ih' ordered.2.1 n held
  | node parts below ih =>
    rw [List.map_append, List.pairwise_append] at ordered
    intro n held child listed
    rcases List.mem_append.mp held with held | held
    · exact ih ordered.1 n held child listed
    · cases List.mem_singleton.mp held
      rw [below] at listed
      exact ordered.2.2 child (parts.rootsAmong.subset listed) _ (by simp)
  | name => simp [NodeKind.children]

end Grown

theorem flatDefaults (params : List Param) :
    (params.map Param.flat).filterMap NodeParam.default =
      params.filterMap fun p => p.default.map Expr.id := by
  simp [List.filterMap_map, Function.comp_def, Param.flat]

theorem flatProperties (properties : List Property) :
    (NodeKind.object (properties.map Property.flat)).children =
      properties.flatMap fun p => p.key.flat.ids ++ [p.value.id] := by
  simp [NodeKind.children, List.flatMap_map, Property.flat]

-- In the order in which the parser makes nodes: the parts are made one after the other, and then
-- their roots are taken up as the children of the next node.
mutual

theorem exprGrown : (e : Expr) → Grown e.nodes [e.id]
  | .literal _ _ => by
    rw [Expr.nodes]
    exact Grown.nil.node rfl
  | .ident _ _ => by
    rw [Expr.nodes]
    exact Grown.nil.node rfl
  | .binary _ _ left right => by
    rw [Expr.nodes]
    exact ((exprGrown left).append (exprGrown right)).node rfl
  | .unary _ _ operand => by
    rw [Expr.nodes]
    exact (exprGrown operand).node rfl
  | .step _ _ _ _ => by
    rw [Expr.nodes]
    exact Grown.name.node rfl
  | .assign _ _ _ value => by
    rw [Expr.nodes]
    exact (exprGrown value).node rfl
  | .call _ callee args => by
    rw [Expr.nodes]
    exact ((exprGrown callee).append (argsGrown args)).node (by simp [NodeKind.children])
  | .function _ params _ body => by
    rw [Expr.nodes]
    exact ((paramsGrown params).append (blockGrown body)).node
      (congrArg (· ++ _) (flatDefaults params))
  | .object _ properties => by
    rw [Expr.nodes]
    exact (propertiesGrown properties).node (flatProperties properties)
  | .member _ object key => by
    rw [Expr.nodes]
    exact ((exprGrown object).append (keyGrown key)).node rfl
  | .grouping _ inner => by
    rw [Expr.nodes]
    exact (exprGrown inner).node rfl

theorem argsGrown : (args : List Arg) → Grown (argNodes args) (args.map (·.value.id))
  | [] => by
    rw [argNodes]
    exact .nil
  | .mk _ value :: rest => by
    rw [argNodes]
    exact (exprGrown value).append (argsGrown rest)

theorem paramsGrown : (params : List Param) →
    Grown (paramNodes params) (params.filterMap fun p => p.default.map Expr.id)
  | [] => by
    rw [paramNodes]
    exact .nil
  | .mk _ _ none :: rest => by
    rw [paramNodes]
    exact paramsGrown rest
  | .mk _ _ (some default) :: rest => by
    rw [paramNodes]
    exact (exprGrown default).append (paramsGrown rest)

theorem keyGrown : (key : Key) → Grown key.nodes key.flat.ids
  | .known _ => by
    rw [Key.nodes]
    exact .nil
  | .computed key => by
    rw [Key.nodes]
    exact exprGrown key

theorem propertiesGrown : (properties : List Property) →
    Grown (propertyNodes properties) (properties.flatMap fun p => p.key.flat.ids ++ [p.value.id])
  | [] => by
    rw [propertyNodes]
    exact .nil
  | .mk key value :: rest => by
    rw [propertyNodes]
    exact ((keyGrown key).append (exprGrown value)).append (propertiesGrown rest)

theorem blockGrown : (b : Block) → Grown b.nodes [b.id]
  | .mk _ body => by
    rw [Block.nodes]
    exact (stmtsGrown body).node rfl

theorem stmtsGrown : (body : List Stmt) → Grown (stmtNodes body) (body.map Stmt.id)
  | [] => by
    rw [stmtNodes]
    exact .nil
  | s :: rest => by
    rw [stmtNodes]
    exact (stmtGrown s).append (stmtsGrown rest)

theorem stmtGrown : (s : Stmt) → Grown s.nodes [s.id]
  | .letDecl _ _ _ _ none => by
    rw [Stmt.nodes]
    exact Grown.nil.node rfl
  | .letDecl _ _ _ _ (some init) => by
    rw [Stmt.nodes]
    exact (exprGrown init).node rfl
  | .functionDecl _ _ params _ body => by
    rw [Stmt.nodes]
    exact ((paramsGrown params).append (blockGrown body)).node
      (congrArg (· ++ _) (flatDefaults params))
  | .typeAlias _ _ _ => by
    rw [Stmt.nodes]
    exact Grown.nil.node rfl
  | .ifElse _ condition thenBranch none => by
    rw [Stmt.nodes]
    exact ((exprGrown condition).append (blockGrown thenBranch)).node rfl
  | .ifElse _ condition thenBranch (some elseBranch) => by
    rw [Stmt.nodes]
    exact (((exprGrown condition).append (blockGrown thenBranch)).append
      (stmtGrown elseBranch)).node rfl
  | .whileLoop _ condition body => by
    rw [Stmt.nodes]
    exact ((exprGrown condition).append (blockGrown body)).node rfl
  | .ret _ none => by
    rw [Stmt.nodes]
    exact Grown.nil.node rfl
  | .ret _ (some value) => by
    rw [Stmt.nodes]
    exact (exprGrown value).node rfl
  | .block body => by
    rw [Stmt.nodes]
    exact blockGrown body
  | .expr _ value => by
    rw [Stmt.nodes]
    exact (exprGrown value).node rfl

end

/-- What numbers tell about the nodes of a program: each node stands at its own, where its place is
listed too; children come before their parents and the roots, which are nodes, in order; and no
number is referred to twice, by a node or as a root. -/
structure Program.IsForest (p : Program) : Prop where
  placed (id : Nat) (n : Node) (held : p.nodes[id]? = some n) :
    n.mark.id = id ∧ p.spans[id]? = some n.mark.span
  childrenFirst : ∀ n ∈ p.nodes, ∀ child ∈ n.kind.children, child < n.mark.id
  rootsHeld : ∀ root ∈ p.roots, root < p.nodes.length
  rootsInOrder : p.roots.Pairwise (· < ·)
  once : (p.nodes.flatMap (·.kind.children) ++ p.roots).Nodup

theorem numberAt {nodes : List Node} (numbers : nodes.map (·.mark.id) = List.range nodes.length)
    {id : Nat} {n : Node} (held : nodes[id]? = some n) : n.mark.id = id := by
  have here : (nodes.map (·.mark.id))[id]? = some n.mark.id := by
    rw [List.getElem?_map, held]
    rfl
  rw [numbers, List.getElem?_eq_some_iff] at here
  obtain ⟨within, same⟩ := here
  rw [← same, List.getElem_range]

/-- Whatever is parsed is a forest, whose nodes have numbers of 32 bits if there are no more than 2 ^ 32
of them. -/
theorem parsedForest {tokens : List Spanned} {program : Program}
    (parsed : parse tokens = .ok program) : program.IsForest := by
  have grown : Grown program.nodes program.roots := stmtsGrown program
  have numbers := parsedNumbered parsed
  have ordered : (program.nodes.map (·.mark.id)).Pairwise (· < ·) := by
    rw [numbers]
    exact List.pairwise_lt_range
  refine ⟨fun id n held => ⟨numberAt numbers held, ?_⟩, grown.childrenBelow ordered,
    fun root held => ?_, ?_, ?_⟩
  · rw [Program.spans, List.getElem?_map, held]
    rfl
  · have among := grown.rootsAmong.subset held
    rwa [numbers, List.mem_range] at among
  · exact ordered.sublist grown.rootsAmong
  · obtain ⟨referred, moved, among⟩ := grown.refersAmong
    refine moved.nodup_iff.mp (List.Nodup.sublist among ?_)
    rw [numbers]
    exact List.nodup_range

-- The tokens of `fn f(a = i++) { }` and `f(f[k]);`.
def steppedDefault : List Spanned := [⟨.keyword .kwFn, 1, 1⟩, ⟨.ident "f", 1, 4⟩,
  ⟨.symbol .lParen, 1, 5⟩, ⟨.ident "a", 1, 6⟩, ⟨.symbol .assign, 1, 8⟩, ⟨.ident "i", 1, 10⟩,
  ⟨.symbol .plusPlus, 1, 11⟩, ⟨.symbol .rParen, 1, 13⟩, ⟨.symbol .lBrace, 1, 15⟩,
  ⟨.symbol .rBrace, 1, 17⟩, ⟨.newline, 1, 18⟩, ⟨.ident "f", 2, 1⟩, ⟨.symbol .lParen, 2, 2⟩,
  ⟨.ident "f", 2, 3⟩, ⟨.symbol .lBracket, 2, 4⟩, ⟨.ident "k", 2, 5⟩, ⟨.symbol .rBracket, 2, 6⟩,
  ⟨.symbol .rParen, 2, 7⟩, ⟨.symbol .semicolon, 2, 8⟩, ⟨.eof, 2, 9⟩]

theorem steppedDefaultForest : ∃ program : Program, parse steppedDefault = .ok program ∧
    program.nodes.flatMap (·.kind.children) = [1, 2, 5, 6, 4, 7, 8] ∧ program.roots = [3, 9] ∧
    program.IsForest := by
  have read : (match parse steppedDefault with
      | .ok program => program.nodes.flatMap (·.kind.children) == [1, 2, 5, 6, 4, 7, 8] &&
          program.roots == [3, 9]
      | .error _ => false) = true := by decide +kernel
  cases parsed : parse steppedDefault with
  | ok program =>
    rw [parsed] at read
    obtain ⟨children, roots⟩ := Bool.and_eq_true_iff.mp read
    exact ⟨program, rfl, eq_of_beq children, eq_of_beq roots, parsedForest parsed⟩
  | error e =>
    rw [parsed] at read
    cases read

end Quill
