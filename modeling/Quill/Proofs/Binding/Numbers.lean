import Quill.Bound.Nodes
import Quill.Proofs.Binding.Clean
import Quill.Proofs.Parsing.Numbered

/-! Numbers of bound nodes. Binding keeps the numbers of nodes and their order, and leaves out only
the variables of steps, so no two nodes of the bound tree of a parsed program have the same. -/
namespace Quill

def StandFor (bound : List Bound.Node) (nodes : List Node) : Prop :=
  (bound.map (·.mark.id)).Sublist (nodes.map (·.mark.id))

namespace StandFor

variable {xs ys : List Bound.Node} {as bs : List Node}

theorem nil : StandFor [] [] := .slnil

theorem append (first : StandFor xs as) (second : StandFor ys bs) :
    StandFor (xs ++ ys) (as ++ bs) := by
  unfold StandFor
  rw [List.map_append, List.map_append]
  exact List.Sublist.append first second

theorem node {x : Bound.Node} {a : Node} (parts : StandFor xs as) (same : x.mark = a.mark) :
    StandFor (xs ++ [x]) (as ++ [a]) := by
  have last : StandFor [x] [a] := by
    simp only [StandFor, List.map_singleton, same, List.Sublist.refl]
  exact parts.append last

theorem one {x : Bound.Node} {a : Node} (same : x.mark = a.mark) : StandFor [x] [a] :=
  node nil same

end StandFor

mutual

theorem exprStands {expected : Option Ty} {t u : SymbolTable} {e : Expr} {b : Bound.Expr} :
    ExprBinds expected t e b u → StandFor b.nodes e.nodes
  | .literal .. | .ident .. => by
    rw [Bound.Expr.nodes, Expr.nodes]
    exact .one rfl
  | .step mark variableMark _ _ _ => by
    rw [Bound.Expr.nodes, Expr.nodes]
    exact List.Sublist.cons _ (.refl _)
  | .binary _ lefts rights _ => by
    rw [Bound.Expr.nodes, Expr.nodes]
    exact ((exprStands lefts).append (exprStands rights)).node rfl
  | .unary _ operands _ => by
    rw [Bound.Expr.nodes, Expr.nodes]
    exact (exprStands operands).node rfl
  | .assign _ _ _ values | .update _ _ _ values _ => by
    rw [Bound.Expr.nodes, Expr.nodes]
    exact (exprStands values).node rfl
  | .call _ callees _ given => by
    rw [Bound.Expr.nodes, Expr.nodes]
    exact ((exprStands callees).append (argsStand given)).node rfl
  | .function _ _ taken bodies => by
    rw [Bound.Expr.nodes, Expr.nodes]
    exact ((paramsStand taken).append (blockStands bodies)).node rfl
  | .object _ listed => by
    rw [Bound.Expr.nodes, Expr.nodes]
    exact (propertiesStand listed).node rfl
  | .member _ objects keys _ => by
    rw [Bound.Expr.nodes, Expr.nodes]
    exact ((exprStands objects).append (keyStands keys)).node rfl
  | .grouping _ inners => by
    rw [Bound.Expr.nodes, Expr.nodes]
    exact (exprStands inners).node rfl

theorem argsStand {types : List Ty} {t u : SymbolTable} {args : List Arg} {args' : List Bound.Arg} :
    ArgsBind types t args args' u → StandFor (Bound.argNodes args') (argNodes args)
  | .nil => by
    rw [Bound.argNodes, argNodes]
    exact .nil
  | .cons _ values others => by
    rw [Bound.argNodes, argNodes]
    exact (exprStands values).append (argsStand others)

theorem paramsStand {span : Span} {t u : SymbolTable} {params : List Param}
    {params' : List Bound.Param} :
    ParamsBind span t params params' u → StandFor (Bound.paramNodes params') (paramNodes params)
  | .nil => by
    rw [Bound.paramNodes, paramNodes]
    exact .nil
  | .required _ _ others => by
    rw [Bound.paramNodes, paramNodes]
    exact paramsStand others
  | .optional _ _ defaults others => by
    rw [Bound.paramNodes, paramNodes]
    exact (exprStands defaults).append (paramsStand others)

theorem keyStands {t u : SymbolTable} {key : Key} {key' : Bound.Key} :
    KeyBinds t key key' u → StandFor key'.nodes key.nodes
  | .known _ => by
    rw [Bound.Key.nodes, Key.nodes]
    exact .nil
  | .computed keys => by
    rw [Bound.Key.nodes, Key.nodes]
    exact exprStands keys

theorem propertiesStand {expected : Option Ty} {shape last : Shape} {t u : SymbolTable}
    {properties : List Property} {properties' : List Bound.Property} :
    PropertiesBind expected shape t properties properties' last u →
    StandFor (Bound.propertyNodes properties') (propertyNodes properties)
  | .nil => by
    rw [Bound.propertyNodes, propertyNodes]
    exact .nil
  | .cons keys values _ others => by
    rw [Bound.propertyNodes, propertyNodes]
    exact ((keyStands keys).append (exprStands values)).append (propertiesStand others)

theorem stmtStands {t u : SymbolTable} {s : Stmt} {s' : Bound.Stmt} :
    StmtBinds t s s' u → StandFor s'.nodes s.nodes
  | .uninitialized .. | .typeAlias .. | .bare .. => by
    rw [Bound.Stmt.nodes, Stmt.nodes]
    exact .one rfl
  | .initialized _ _ _ _ inits => by
    rw [Bound.Stmt.nodes, Stmt.nodes]
    exact (exprStands inits).node rfl
  | .functionDecl _ _ _ _ taken bodies => by
    rw [Bound.Stmt.nodes, Stmt.nodes]
    exact ((paramsStand taken).append (blockStands bodies)).node rfl
  | .branch _ conditions thens => by
    rw [Bound.Stmt.nodes, Stmt.nodes]
    exact ((exprStands conditions).append (blockStands thens)).node rfl
  | .choice _ conditions thens elses => by
    rw [Bound.Stmt.nodes, Stmt.nodes]
    exact (((exprStands conditions).append (blockStands thens)).append (stmtStands elses)).node rfl
  | .loop _ conditions bodies => by
    rw [Bound.Stmt.nodes, Stmt.nodes]
    exact ((exprStands conditions).append (blockStands bodies)).node rfl
  | .ret _ values | .expr _ values => by
    rw [Bound.Stmt.nodes, Stmt.nodes]
    exact (exprStands values).node rfl
  | .block bodies => by
    rw [Bound.Stmt.nodes, Stmt.nodes]
    exact blockStands bodies

theorem blockStands {t u : SymbolTable} {body : Block} {body' : Bound.Block} :
    BlockBinds t body body' u → StandFor body'.nodes body.nodes
  | .mk _ bodies => by
    rw [Bound.Block.nodes, Block.nodes]
    exact (stmtsStand bodies).node rfl

theorem stmtsStand {t u : SymbolTable} {body : List Stmt} {body' : List Bound.Stmt} :
    StmtsBind t body body' u → StandFor (Bound.stmtNodes body') (stmtNodes body)
  | .nil => by
    rw [Bound.stmtNodes, stmtNodes]
    exact .nil
  | .cons first others => by
    rw [Bound.stmtNodes, stmtNodes]
    exact (stmtStands first).append (stmtsStand others)

end

theorem boundDistinct {source : String} {program : Program} {t u : SymbolTable}
    {bound : Bound.Program} (parsed : parseSource source = .ok program)
    (binds : StmtsBind t program bound u) :
    ((Bound.stmtNodes bound).map (·.mark.id)).Nodup :=
  List.Nodup.sublist (stmtsStand binds) (parsedDistinct parsed)

end Quill
