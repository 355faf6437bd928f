import Quill.Proofs.Binding.Resolved
import Quill.Proofs.Checking.Reached
import Quill.Proofs.Parsing.Forest

/-! What is bound of a program, whether or not it has errors. Each node that is reached from the
roots has one bound node; the others are the variables of steps, which no node has for a child. -/
namespace Quill

def Node.family (n : Node) : Family := ⟨n.mark.id, n.kind.children⟩

def Bound.Node.family (n : Bound.Node) : Family := ⟨n.mark.id, n.children⟩

structure BoundAs (a : Node) (b : Bound.Node) : Prop where
  mark : b.mark = a.mark
  children : b.children = a.kind.children ∨ b.outcome = .unresolved

/-- Of these nodes those that are reached from the roots are bound, all but some names are, and the
roots are bound to `ids`. -/
structure Covers (nodes : List Node) (roots : List Nat) (bound : List Bound.Node) (ids : List Nat) :
    Prop where
  same : ids = roots
  outlined : ∃ outline : List Node, outline.Sublist nodes ∧
    (∀ n ∈ nodes, n ∈ outline ∨ ∃ name, n.kind = .ident name) ∧
    Spans (outline.map Node.family) roots ∧ List.Forall₂ BoundAs outline bound

namespace Covers

variable {xs ys : List Node} {roots others ids ids' : List Nat} {bs cs : List Bound.Node}

theorem nil : Covers [] [] [] [] :=
  ⟨rfl, [], .slnil, by simp, .nil, .nil⟩

theorem name {mark : Mark} {name : String} : Covers [⟨mark, .ident name⟩] [] [] [] :=
  ⟨rfl, [], List.nil_sublist _, by simp, .nil, .nil⟩

theorem append (first : Covers xs roots bs ids) (second : Covers ys others cs ids') :
    Covers (xs ++ ys) (roots ++ others) (bs ++ cs) (ids ++ ids') := by
  obtain ⟨rfl, outline, within, names, spans, stand⟩ := first
  obtain ⟨rfl, outline', within', names', spans', stand'⟩ := second
  refine ⟨rfl, outline ++ outline', within.append within', fun n held => ?_, ?_, ?_⟩
  · rw [List.mem_append]
    rcases List.mem_append.mp held with held | held
    · exact (names n held).imp_left .inl
    · exact (names' n held).imp_left .inr
  · rw [List.map_append]
    exact spans.append spans'
  · exact List.rel_append stand stand'

theorem node (parts : Covers xs roots bs ids) {a : Node} {b : Bound.Node} (mark : b.mark = a.mark)
    (below : a.kind.children = roots) (children : b.children = ids ∨ b.outcome = .unresolved) :
    Covers (xs ++ [a]) [a.mark.id] (bs ++ [b]) [b.mark.id] := by
  subst below
  obtain ⟨rfl, outline, within, names, spans, stand⟩ := parts
  refine ⟨by rw [mark], outline ++ [a], within.append (.refl _), fun n held => ?_, ?_, ?_⟩
  · rw [List.mem_append]
    rcases List.mem_append.mp held with held | held
    · exact (names n held).imp_left .inl
    · exact .inl (.inr held)
  · rw [List.map_append]
    exact spans.node a.mark.id
  · exact List.rel_append stand (.cons ⟨mark, children⟩ .nil)

end Covers

open Binder (Gives)

def Expr.CoveredBy (e : Expr) (b : Bound.Expr) : Prop := Covers e.nodes [e.id] b.nodes [b.id]

theorem bindStepCovers (mark variableMark : Mark) (op : StepOp) (name : String) :
    Gives (bindStep mark op name) (Expr.step mark op name variableMark).CoveredBy := by
  have covers (type : Ty) (resolved : Option (StepRow × VarSymbol)) :
      (Expr.step mark op name variableMark).CoveredBy (.step ⟨mark, type⟩ op name resolved) := by
    rw [Expr.CoveredBy, Expr.nodes, Bound.Expr.nodes]
    cases resolved with
    | none => exact Covers.name.node rfl rfl (.inr rfl)
    | some row => exact Covers.name.node rfl rfl (.inl rfl)
  refine .bind (.any _) fun found _ => ?_
  cases found with
  | none => exact .pure (covers _ _)
  | some symbol =>
    refine .bind (.any _) fun _ _ => ?_
    split
    · exact .pure (covers _ _)
    · exact .bind (.any _) fun _ _ => .pure (covers _ _)

theorem bindBinaryCovers (mark : Mark) (op : BinaryOp) {left right : Expr}
    {left' right' : Bound.Expr} (lefts : left.CoveredBy left') (rights : right.CoveredBy right') :
    Gives (bindBinary mark op left' right') (Expr.binary mark op left right).CoveredBy := by
  have covers (type : Ty) (row : Option BinaryRow) :
      (Expr.binary mark op left right).CoveredBy (.binary ⟨mark, type⟩ op row left' right') := by
    rw [Expr.CoveredBy, Expr.nodes, Bound.Expr.nodes]
    cases row with
    | none => exact (lefts.append rights).node rfl rfl (.inr rfl)
    | some row => exact (lefts.append rights).node rfl rfl (.inl rfl)
  unfold bindBinary
  split
  · exact .pure (covers _ _)
  · exact .bind (.any _) fun _ _ => .pure (covers _ _)

theorem bindUnaryCovers (mark : Mark) (op : UnaryOp) {operand : Expr} {operand' : Bound.Expr}
    (covered : operand.CoveredBy operand') :
    Gives (bindUnary mark op operand') (Expr.unary mark op operand).CoveredBy := by
  have covers (type : Ty) (row : Option UnaryRow) :
      (Expr.unary mark op operand).CoveredBy (.unary ⟨mark, type⟩ op row operand') := by
    rw [Expr.CoveredBy, Expr.nodes, Bound.Expr.nodes]
    cases row with
    | none => exact covered.node rfl rfl (.inr rfl)
    | some row => exact covered.node rfl rfl (.inl rfl)
  unfold bindUnary
  split
  · exact .pure (covers _ _)
  · exact .bind (.any _) fun _ _ => .pure (covers _ _)

theorem bindAssignCovers (mark : Mark) (name : String) (op : Option BinaryOp)
    (found : Option VarSymbol) {value : Expr} {value' : Bound.Expr}
    (covered : value.CoveredBy value') :
    Gives (bindAssign mark name op found value') (Expr.assign mark name op value).CoveredBy := by
  have covers (type : Ty) (op' : Option BinaryOp) (target : Option Bound.Target) :
      (Expr.assign mark name op value).CoveredBy (.assign ⟨mark, type⟩ name op' target value') := by
    rw [Expr.CoveredBy, Expr.nodes, Bound.Expr.nodes]
    cases target with
    | none => exact covered.node rfl rfl (.inr rfl)
    | some target => exact covered.node rfl rfl (.inl rfl)
  cases found with
  | none => exact .pure (covers _ _ _)
  | some symbol =>
    refine .bind (.any _) fun _ _ => ?_
    split
    · exact .pure (covers _ _ _)
    · split
      · exact .pure (covers _ _ _)
      · exact .bind (.any _) fun _ _ => .pure (covers _ _ _)

-- Which nodes there are does not depend on what is known, so the recursion of the binder is
-- followed with any table, and what it reports is of no account.
mutual

theorem bindExprCovers (expected : Option Ty) : (e : Expr) → Gives (bindExpr expected e) e.CoveredBy
  | .literal mark value => by
    rw [bindExpr]
    refine .pure ?_
    rw [Expr.CoveredBy, Expr.nodes, Bound.Expr.nodes]
    exact Covers.nil.node rfl rfl (.inl rfl)
  | .ident mark name => by
    rw [bindExpr]
    refine .bind (.any _) fun found _ => .pure ?_
    rw [Expr.CoveredBy, Expr.nodes, Bound.Expr.nodes]
    cases found with
    | none => exact Covers.nil.node rfl rfl (.inr rfl)
    | some symbol => exact Covers.nil.node rfl rfl (.inl rfl)
  | .binary mark op left right => by
    rw [bindExpr]
    exact (bindExprCovers none left).bind fun _ lefts =>
      (bindExprCovers none right).bind fun _ rights => bindBinaryCovers mark op lefts rights
  | .unary mark op operand => by
    rw [bindExpr]
    exact (bindExprCovers none operand).bind fun _ covered => bindUnaryCovers mark op covered
  | .step mark op name variableMark => by
    rw [bindExpr]
    exact bindStepCovers mark variableMark op name
  | .assign mark name op value => by
    rw [bindExpr]
    exact .bind (.any _) fun found _ => (bindExprCovers _ value).bind fun _ covered =>
      bindAssignCovers mark name op found covered
  | .call mark callee args => by
    rw [bindExpr]
    refine (bindExprCovers none callee).bind fun _ callees => .bind (.any _) fun types _ => ?_
    refine (bindArgsCovers types.1 args).bind fun _ given => .pure ?_
    rw [Expr.CoveredBy, Expr.nodes, Bound.Expr.nodes]
    exact (callees.append given).node rfl (by simp [NodeKind.children]) (.inl rfl)
  | .function mark params ret body => by
    rw [bindExpr]
    refine .bind (.any _) fun _ _ => .bind (.any _) fun _ _ => ?_
    refine (bindParamsCovers body.mark.span params).bind fun _ defaults => ?_
    refine (bindBlockCovers body).bind fun _ bodies => .bind (.any _) fun _ _ => .pure ?_
    rw [Expr.CoveredBy, Expr.nodes, Bound.Expr.nodes]
    exact (defaults.append bodies).node rfl (congrArg (· ++ _) (flatDefaults params)) (.inl rfl)
  | .object mark properties => by
    rw [bindExpr]
    refine (bindPropertiesCovers expected .empty properties).bind fun _ listed => .pure ?_
    rw [Expr.CoveredBy, Expr.nodes, Bound.Expr.nodes]
    exact listed.node rfl (flatProperties properties) (.inl rfl)
  | .member mark object key => by
    rw [bindExpr]
    refine (bindExprCovers none object).bind fun _ objects => ?_
    refine (bindKeyCovers key).bind fun _ keys => .bind (.any _) fun _ _ => .pure ?_
    rw [Expr.CoveredBy, Expr.nodes, Bound.Expr.nodes]
    exact (objects.append keys).node rfl rfl (.inl rfl)
  | .grouping mark inner => by
    rw [bindExpr]
    refine (bindExprCovers expected inner).bind fun _ inners => .pure ?_
    rw [Expr.CoveredBy, Expr.nodes, Bound.Expr.nodes]
    exact inners.node rfl rfl (.inl rfl)

theorem bindArgsCovers (types : List Ty) : (args : List Arg) →
    Gives (bindArgs types args) fun bound => Covers (argNodes args) (args.map (·.value.id))
      (Bound.argNodes bound) (bound.map (·.value.id))
  | [] => by
    rw [bindArgs]
    exact .pure .nil
  | .mk _ value :: rest => by
    rw [bindArgs]
    refine (bindExprCovers _ value).bind fun _ values =>
      (bindArgsCovers _ rest).bind fun _ others => .pure ?_
    rw [argNodes, Bound.argNodes]
    exact values.append others

theorem bindParamsCovers (span : Span) : (params : List Param) →
    Gives (bindParams span params) fun bound =>
      Covers (paramNodes params) (params.filterMap fun p => p.default.map Expr.id)
        (Bound.paramNodes bound) (bound.filterMap fun p => p.default.map Bound.Expr.id)
  | [] => by
    rw [bindParams]
    exact .pure .nil
  | .mk _ _ none :: rest => by
    rw [bindParams]
    refine .bind (.any _) fun _ _ => .bind (.any _) fun _ _ =>
      (bindParamsCovers span rest).bind fun _ others => .pure ?_
    rw [paramNodes, Bound.paramNodes]
    exact others
  | .mk _ _ (some default) :: rest => by
    rw [bindParams]
    refine .bind (.any _) fun _ _ => (bindExprCovers _ default).bind fun _ defaults =>
      .bind (.any _) fun _ _ => (bindParamsCovers span rest).bind fun _ others => .pure ?_
    rw [paramNodes, Bound.paramNodes]
    exact defaults.append others

theorem bindKeyCovers : (key : Key) → Gives (bindKey key) fun bound =>
    Covers key.nodes key.flat.ids bound.nodes bound.ids
  | .known _ => by
    rw [bindKey]
    exact .pure .nil
  | .computed key => by
    rw [bindKey]
    refine (bindExprCovers none key).bind fun _ covered => .pure ?_
    rw [Key.nodes, Bound.Key.nodes]
    exact covered

theorem bindPropertiesCovers (expected : Option Ty) (shape : Shape) : (properties : List Property) →
    Gives (bindProperties expected shape properties) fun bound =>
      Covers (propertyNodes properties) (properties.flatMap fun p => p.key.flat.ids ++ [p.value.id])
        (Bound.propertyNodes bound.1) (bound.1.flatMap Bound.Property.ids)
  | [] => by
    rw [bindProperties]
    exact .pure .nil
  | .mk key value :: rest => by
    rw [bindProperties]
    refine (bindKeyCovers key).bind fun _ keys => (bindExprCovers _ value).bind fun _ values => ?_
    refine .bind (.any _) fun grown _ => (bindPropertiesCovers expected grown.1 rest).bind
      fun _ others => .pure ?_
    rw [propertyNodes, Bound.propertyNodes]
    exact (keys.append values).append others

theorem bindBlockCovers : (b : Block) → Gives (bindBlock b) fun bound =>
    Covers b.nodes [b.id] bound.nodes [bound.mark.id]
  | .mk _ body => by
    rw [bindBlock]
    refine .bind (.any _) fun _ _ => (bindStmtsCovers body).bind fun _ covered =>
      .bind (.any _) fun _ _ => .pure ?_
    rw [Block.nodes, Bound.Block.nodes]
    exact covered.node rfl rfl (.inl rfl)

theorem bindStmtsCovers : (body : List Stmt) → Gives (bindStmts body) fun bound =>
    Covers (stmtNodes body) (body.map Stmt.id) (Bound.stmtNodes bound) (bound.map (·.mark.id))
  | [] => by
    rw [bindStmts]
    exact .pure .nil
  | s :: rest => by
    rw [bindStmts]
    refine (bindStmtCovers s).bind fun _ first =>
      (bindStmtsCovers rest).bind fun _ others => .pure ?_
    rw [stmtNodes, Bound.stmtNodes]
    exact first.append others

theorem bindStmtCovers : (s : Stmt) → Gives (bindStmt s) fun bound =>
    Covers s.nodes [s.id] bound.nodes [bound.mark.id]
  | .letDecl _ _ _ _ none => by
    rw [bindStmt]
    refine .bind (.any _) fun _ _ => .bind (.any _) fun _ _ => .bind (.any _) fun _ _ => .pure ?_
    rw [Stmt.nodes, Bound.Stmt.nodes]
    exact Covers.nil.node rfl rfl (.inl rfl)
  | .letDecl _ _ _ _ (some init) => by
    rw [bindStmt]
    refine .bind (.any _) fun _ _ => (bindExprCovers _ init).bind fun _ covered =>
      .bind (.any _) fun _ _ => .bind (.any _) fun _ _ => .pure ?_
    rw [Stmt.nodes, Bound.Stmt.nodes]
    exact covered.node rfl rfl (.inl rfl)
  | .functionDecl _ _ params _ body => by
    rw [bindStmt]
    refine .bind (.any _) fun _ _ => .bind (.any _) fun _ _ => .bind (.any _) fun _ _ => ?_
    refine .bind (.any _) fun _ _ => (bindParamsCovers _ params).bind fun _ defaults => ?_
    refine (bindBlockCovers body).bind fun _ bodies => .bind (.any _) fun _ _ =>
      .bind (.any _) fun _ _ => .pure ?_
    rw [Stmt.nodes, Bound.Stmt.nodes]
    exact (defaults.append bodies).node rfl (congrArg (· ++ _) (flatDefaults params)) (.inl rfl)
  | .typeAlias _ _ _ => by
    rw [bindStmt]
    refine .bind (.any _) fun _ _ => .bind (.any _) fun _ _ => .pure ?_
    rw [Stmt.nodes, Bound.Stmt.nodes]
    exact Covers.nil.node rfl rfl (.inl rfl)
  | .ifElse _ condition thenBranch none => by
    rw [bindStmt]
    refine (bindExprCovers none condition).bind fun _ conditions =>
      (bindBlockCovers thenBranch).bind fun _ branches => .pure ?_
    rw [Stmt.nodes, Bound.Stmt.nodes]
    exact (conditions.append branches).node rfl rfl (.inl rfl)
  | .ifElse _ condition thenBranch (some elseBranch) => by
    rw [bindStmt]
    refine (bindExprCovers none condition).bind fun _ conditions =>
      (bindBlockCovers thenBranch).bind fun _ branches =>
        (bindStmtCovers elseBranch).bind fun _ others => .pure ?_
    rw [Stmt.nodes, Bound.Stmt.nodes]
    exact ((conditions.append branches).append others).node rfl rfl (.inl rfl)
  | .whileLoop _ condition body => by
    rw [bindStmt]
    refine (bindExprCovers none condition).bind fun _ conditions =>
      (bindBlockCovers body).bind fun _ bodies => .pure ?_
    rw [Stmt.nodes, Bound.Stmt.nodes]
    exact (conditions.append bodies).node rfl rfl (.inl rfl)
  | .ret _ none => by
    rw [bindStmt]
    refine .pure ?_
    rw [Stmt.nodes, Bound.Stmt.nodes]
    exact Covers.nil.node rfl rfl (.inl rfl)
  | .ret _ (some value) => by
    rw [bindStmt]
    refine (bindExprCovers none value).bind fun _ covered => .pure ?_
    rw [Stmt.nodes, Bound.Stmt.nodes]
    exact covered.node rfl rfl (.inl rfl)
  | .block body => by
    rw [bindStmt]
    refine (bindBlockCovers body).bind fun _ covered => .pure ?_
    rw [Stmt.nodes, Bound.Stmt.nodes]
    exact covered
  | .expr _ value => by
    rw [bindStmt]
    refine (bindExprCovers none value).bind fun _ covered => .pure ?_
    rw [Stmt.nodes, Bound.Stmt.nodes]
    exact covered.node rfl rfl (.inl rfl)

end

theorem familyIds (nodes : List Node) :
    (nodes.map Node.family).map Family.id = nodes.map (·.mark.id) := by
  simp [Node.family, Function.comp_def]

theorem boundNumbers {xs : List Node} {bs : List Bound.Node} (stand : List.Forall₂ BoundAs xs bs) :
    bs.map (·.mark.id) = xs.map (·.mark.id) := by
  induction stand with
  | nil => rfl
  | cons first _ ih => simp [first.mark, ih]

/-- Of a program that parses, the bound nodes are those that are reached from the roots, each once.
The nodes that are not are names. -/
theorem boundReached {source : String} {program : Program}
    (parsed : parseSource source = .ok program) :
    ((Bound.stmtNodes (bind program).1).map (·.mark.id)).Nodup ∧
      (∀ id, id ∈ (Bound.stmtNodes (bind program).1).map (·.mark.id) ↔
        Reaches (program.nodes.map Node.family) program.roots id) ∧
      ∀ n ∈ program.nodes, n.mark.id ∉ (Bound.stmtNodes (bind program).1).map (·.mark.id) →
        ∃ name, n.kind = .ident name := by
  obtain ⟨-, outline, within, names, spans, stand⟩ := bindStmtsCovers program ⟨.initial, []⟩
  have numbers : (Bound.stmtNodes (bind program).1).map (·.mark.id) = outline.map (·.mark.id) :=
    boundNumbers stand
  have distinct := parsedDistinct parsed
  rw [numbers]
  refine ⟨distinct.sublist (within.map _), fun id => ?_, fun n held unbound => ?_⟩
  · rw [← familyIds] at distinct ⊢
    exact (spans.exactly (within.map _) distinct).symm
  · exact (names n held).resolve_left fun bound => unbound (List.mem_map_of_mem bound)

end Quill
