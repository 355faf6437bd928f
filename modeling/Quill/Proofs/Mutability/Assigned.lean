import Quill.Bound.Nodes
import Quill.Proofs.Folding.Sessions
import Quill.Proofs.Mutability.Assignments
import Quill.Proofs.Scoping.Declared

/-! Assignments that runs of compiled programs execute. Each is of a variable that the binder found
to be mutable where it is written, and so of a name that some `let mut` of the program declares. -/
namespace Quill

namespace Bound

def Node.assigned? (n : Node) : Option VarSymbol :=
  match n.outcome with
  | .assign target => some target.symbol
  | .step _ symbol => some symbol
  | _ => none

/-- The source and the name of an assignment that is among the nodes, to a mutable variable that is
declared among them too. -/
inductive Allows (nodes : List Node) : Option Nat → String → Prop where
  | intro {n declaration : Node} {symbol : VarSymbol} (held : n ∈ nodes)
      (assigns : n.assigned? = some symbol) (mutable : symbol.mutable)
      (introduced : declaration ∈ nodes) (declares : declaration.outcome = .letDecl symbol) :
      Allows nodes (some n.mark.id) symbol.name

end Bound

open Bound (Allows)

def SymbolTable.MutablesIn (t : SymbolTable) (nodes : List Bound.Node) : Prop :=
  ∀ symbol ∈ t.vars.flatten, symbol.mutable → ∃ n ∈ nodes, n.outcome = .letDecl symbol

section
variable {t u : SymbolTable} {nodes : List Bound.Node} {name : String} {type : Ty}
  {mutable isIntrinsic : Bool}

theorem SymbolTable.MutablesIn.same (known : t.MutablesIn nodes) (vars : u.vars = t.vars) :
    u.MutablesIn nodes := by
  rw [MutablesIn, vars]
  exact known

theorem SymbolTable.MutablesIn.push (known : t.MutablesIn nodes) : t.push.MutablesIn nodes := known

theorem SymbolTable.MutablesIn.define (known : t.MutablesIn nodes)
    (declared : mutable → ∃ n ∈ nodes,
      n.outcome = .letDecl (t.define name type mutable isIntrinsic).1) :
    (t.define name type mutable isIntrinsic).2.MutablesIn nodes := by
  obtain ⟨inner, outer, whole⟩ := t.varsCons
  rw [MutablesIn, whole, List.flatten_cons] at known
  rw [MutablesIn, SymbolTable.defineVars whole, List.flatten_cons, List.cons_append]
  exact List.forall_mem_cons.mpr ⟨declared, known⟩

theorem SymbolTable.MutablesIn.fixed (known : t.MutablesIn nodes) :
    (t.define name type false isIntrinsic).2.MutablesIn nodes :=
  known.define fun mutable => nomatch mutable

theorem initialMutables : SymbolTable.initial.MutablesIn nodes := by
  have fixed : ∀ symbol ∈ SymbolTable.initial.vars.flatten, symbol.mutable = false := by decide
  intro symbol inside mutable
  cases (fixed symbol inside).symm.trans mutable

theorem paramsMutables {span : Span} {params : List Param} {params' : List Bound.Param}
    (taken : ParamsBind span t params params' u) (known : t.MutablesIn nodes) :
    u.MutablesIn nodes := by
  induction params generalizing t params' with
  | nil =>
    cases taken
    exact known
  | cons param rest ih =>
    cases taken with
    | required name _ others => exact ih others known.fixed
    | optional name _ defaults others =>
      exact ih others ((known.same (exprVars defaults)).fixed)

end

namespace Bound

variable {P : Option Nat → String → Prop} {nodes : List Node} {m : Mark} {name : String}

theorem instrAssigning {op : Opcode} (other : op ≠ .store := by decide) : Assigning P [instr m op] :=
  .flat rfl other

theorem pushAssigning {x : Operand} {v : Value} (constant : Value.ofOperand? x = some v) :
    Assigning P [push m x] :=
  .flat constant nofun

theorem jumpAssigning {op : Opcode} {offset : Int} (other : op ≠ .store := by decide) :
    Assigning P [jump m op offset] :=
  .flat rfl other

theorem loadAssigning : Assigning P (load m name) :=
  (pushAssigning rfl).append instrAssigning

theorem defineAssigning : Assigning P (define m name) :=
  (pushAssigning rfl).append instrAssigning

theorem storeAssigning (allows : P (some m.id) name) : Assigning P (store m name) := by
  refine .intro (fun ip i found op => ?_) fun i inside slot c holds => ?_
  · match ip, found with
    | 0, found =>
      cases found
      cases op
    | 1, found =>
      cases found
      exact ⟨0, name, some m.id, rfl, rfl, allows⟩
  · rcases List.mem_cons.mp inside with rfl | inside
    · cases (flatSlot (v := .str name) rfl slot).symm.trans holds
    · cases List.mem_singleton.mp inside
      cases (flatSlot (v := .none) rfl slot).symm.trans holds

theorem operatorOther {op : Opcode} (operator : op.isBinary ∨ op.isUnary) : op ≠ .store := by
  rintro rfl
  rcases operator with operator | operator <;> cases operator

theorem literalAssigning (value : Literal) : Assigning P (literalCode m value) := by
  cases value <;> exact .flat rfl nofun

theorem stepAssigning {op : Opcode} (unary : op.isUnary) (allows : P (some m.id) name) :
    Assigning P (stepCode m name op) :=
  (((loadAssigning.append loadAssigning).append
    (instrAssigning (operatorOther (.inr unary)))).append (storeAssigning allows)).append
      instrAssigning

theorem procAssigning {body : Mark} {params : List Operand} {code : Code}
    (defaults : ∀ slot c, argumentCode? params slot = some c → Assigning P c)
    (inner : Assigning P code) : Assigning P (procCode m body params code) := by
  refine .one nofun fun slot c holds => ?_
  cases slot with
  | zero =>
    cases holds
    exact inner.append (Assigning.cons instrAssigning instrAssigning)
  | succ slot => exact defaults slot c holds

theorem argumentSlotsCons {x : Operand} {rest : List Operand}
    (first : ∀ c, argumentCode? [x] 0 = some c → Assigning P c)
    (others : ∀ slot c, argumentCode? rest slot = some c → Assigning P c) (slot : Nat) (c : Code)
    (found : argumentCode? (x :: rest) slot = some c) : Assigning P c := by
  cases slot with
  | zero => exact first c found
  | succ slot => exact others slot c found

theorem propertySlotsCons {key value : Code} {rest : List Operand} (keys : Assigning P key)
    (values : Assigning P value)
    (others : ∀ slot c, propertyCode? rest slot = some c → Assigning P c) (slot : Nat) (c : Code)
    (found : propertyCode? (.tuple (.code key) (.code value) :: rest) slot = some c) :
    Assigning P c := by
  match slot, found with
  | 0, found =>
    cases found
    exact keys
  | 1, found =>
    cases found
    exact values
  | slot + 2, found =>
    rw [propertyCons] at found
    exact others slot c found

end Bound

open Bound

section
variable {nodes : List Bound.Node} {t : SymbolTable} {name : String} {symbol : VarSymbol}

theorem allowsFound {b : Bound.Expr} (known : t.MutablesIn nodes) (inside : b.nodes ⊆ nodes)
    (found : t.lookup name = some symbol) (mutable : symbol.mutable)
    (assigns : b.node.assigned? = some symbol) : Allows nodes (some b.mark.id) name := by
  obtain ⟨visible, rfl⟩ := SymbolTable.lookupVars found
  obtain ⟨declaration, introduced, declares⟩ := known symbol visible mutable
  rw [← Expr.nodeMark]
  exact .intro (inside Expr.nodeInside) assigns mutable introduced declares

end

section
variable {nodes : List Bound.Node}

-- By induction on how the program was bound. Expressions leave the table's variables as they are,
-- so only statements have to say that what they declare is among the nodes.
mutual

theorem exprAssigning {expected : Option Ty} {t u : SymbolTable} {e : Expr} {b : Bound.Expr} :
    ExprBinds expected t e b u → t.MutablesIn nodes → b.nodes ⊆ nodes →
    Assigning (Allows nodes) b.code
  | .literal mark value, _, _ => literalAssigning value
  | .ident mark _, _, _ => by
    rw [Bound.Expr.code]
    exact loadAssigning
  | .binary mark lefts rights resolved, known, inside => by
    rw [Bound.Expr.nodes] at inside
    obtain ⟨both, -⟩ := List.append_subset.mp inside
    obtain ⟨left, right⟩ := List.append_subset.mp both
    rw [Bound.Expr.code]
    exact ((exprAssigning lefts known left).append
      (exprAssigning rights (known.same (exprVars lefts)) right)).append
        (instrAssigning (operatorOther (.inl (Operators.resolvedBinary resolved))))
  | .unary mark operands resolved, known, inside => by
    rw [Bound.Expr.nodes] at inside
    rw [Bound.Expr.code]
    exact (exprAssigning operands known (List.append_subset.mp inside).1).append
      (instrAssigning (operatorOther (.inr (Operators.resolvedUnary resolved))))
  | .step mark _ found mutable resolved, known, inside => by
    have allows := allowsFound known inside found mutable rfl
    rw [Bound.Expr.code]
    exact stepAssigning (Operators.resolvedStep resolved) allows
  | .assign mark found mutable values, known, inside => by
    have allows := allowsFound known inside found mutable rfl
    rw [Bound.Expr.nodes] at inside
    rw [Bound.Expr.code]
    exact (exprAssigning values known (List.append_subset.mp inside).1).append
      (storeAssigning allows)
  | .update mark found mutable values resolved, known, inside => by
    have allows := allowsFound known inside found mutable rfl
    rw [Bound.Expr.nodes] at inside
    rw [Bound.Expr.code]
    exact ((loadAssigning.append
      (exprAssigning values known (List.append_subset.mp inside).1)).append
        (instrAssigning (operatorOther (.inl (Operators.resolvedBinary resolved))))).append
          (storeAssigning allows)
  | .call mark callees _ given, known, inside => by
    rw [Bound.Expr.nodes] at inside
    obtain ⟨both, -⟩ := List.append_subset.mp inside
    obtain ⟨callee, args⟩ := List.append_subset.mp both
    rw [Bound.Expr.code]
    exact (exprAssigning callees known callee).append
      (.one nofun (argsAssigning given (known.same (exprVars callees)) args))
  | .function mark _ taken bodies, known, inside => by
    rw [Bound.Expr.nodes] at inside
    obtain ⟨both, -⟩ := List.append_subset.mp inside
    obtain ⟨params, body⟩ := List.append_subset.mp both
    have opened := known.push
    rw [Bound.Expr.code]
    exact procAssigning (paramsAssigning taken opened params)
      (blockAssigning bodies (paramsMutables taken opened) body)
  | .object mark properties, known, inside => by
    rw [Bound.Expr.nodes] at inside
    rw [Bound.Expr.code]
    exact .one nofun (propertiesAssigning properties known (List.append_subset.mp inside).1)
  | .member mark objects (.known name) _, known, inside => by
    obtain ⟨v, constant⟩ := keyConstant name
    rw [Bound.Expr.nodes] at inside
    rw [Bound.Expr.code]
    exact (exprAssigning objects known
      (List.append_subset.mp (List.append_subset.mp inside).1).1).append
        ((pushAssigning constant).append instrAssigning)
  | .member mark objects (.computed keys) _, known, inside => by
    rw [Bound.Expr.nodes] at inside
    obtain ⟨both, -⟩ := List.append_subset.mp inside
    obtain ⟨object, key⟩ := List.append_subset.mp both
    rw [Bound.Key.nodes] at key
    rw [Bound.Expr.code]
    exact ((exprAssigning objects known object).append
      (exprAssigning keys (known.same (exprVars objects)) key)).append instrAssigning
  | .grouping mark inners, known, inside => by
    rw [Bound.Expr.nodes] at inside
    rw [Bound.Expr.code]
    exact exprAssigning inners known (List.append_subset.mp inside).1

theorem argsAssigning {types : List Ty} {t u : SymbolTable} {args : List Arg}
    {args' : List Bound.Arg} : ArgsBind types t args args' u → t.MutablesIn nodes →
    Bound.argNodes args' ⊆ nodes →
    ∀ slot c, argumentCode? (argOperands args') slot = some c → Assigning (Allows nodes) c
  | .nil, _, _ => by
    rw [argOperands]
    exact nofun
  | .cons name values others, known, inside => by
    rw [Bound.argNodes] at inside
    obtain ⟨value, rest⟩ := List.append_subset.mp inside
    obtain ⟨x, same⟩ := argOperandsCons name _ _ _
    rw [same]
    refine argumentSlotsCons (fun c found => ?_) (argsAssigning others (known.same (exprVars values)) rest)
    cases found
    exact exprAssigning values known value

theorem paramsAssigning {span : Span} {t u : SymbolTable} {params : List Param}
    {params' : List Bound.Param} : ParamsBind span t params params' u → t.MutablesIn nodes →
    Bound.paramNodes params' ⊆ nodes →
    ∀ slot c, argumentCode? (paramOperands params') slot = some c → Assigning (Allows nodes) c
  | .nil, _, _ => by
    rw [paramOperands]
    exact nofun
  | .required name _ others, known, inside => by
    rw [Bound.paramNodes] at inside
    rw [paramOperands]
    exact argumentSlotsCons nofun (paramsAssigning others known.fixed inside)
  | .optional name _ defaults others, known, inside => by
    rw [Bound.paramNodes] at inside
    obtain ⟨default, rest⟩ := List.append_subset.mp inside
    rw [paramOperands]
    refine argumentSlotsCons (fun c found => ?_)
      (paramsAssigning others ((known.same (exprVars defaults)).fixed) rest)
    cases found
    exact exprAssigning defaults known default

theorem propertiesAssigning {expected : Option Ty} {shape last : Shape} {t u : SymbolTable}
    {properties : List Property} {properties' : List Bound.Property} :
    PropertiesBind expected shape t properties properties' last u → t.MutablesIn nodes →
    Bound.propertyNodes properties' ⊆ nodes →
    ∀ slot c, propertyCode? (propertyOperands properties') slot = some c →
      Assigning (Allows nodes) c
  | .nil, _, _ => by
    rw [propertyOperands]
    exact nofun
  | .cons (.known name) values _ others, known, inside => by
    rw [Bound.propertyNodes] at inside
    obtain ⟨both, rest⟩ := List.append_subset.mp inside
    obtain ⟨v, constant⟩ := keyConstant name
    rw [propertyOperands]
    exact propertySlotsCons (pushAssigning constant)
      (exprAssigning values known (List.append_subset.mp both).2)
      (propertiesAssigning others (known.same (exprVars values)) rest)
  | .cons (.computed keys) values _ others, known, inside => by
    rw [Bound.propertyNodes, Bound.Key.nodes] at inside
    obtain ⟨both, rest⟩ := List.append_subset.mp inside
    obtain ⟨key, value⟩ := List.append_subset.mp both
    have next := known.same (exprVars keys)
    rw [propertyOperands]
    exact propertySlotsCons (exprAssigning keys known key) (exprAssigning values next value)
      (propertiesAssigning others (next.same (exprVars values)) rest)

theorem stmtAssigning {t u : SymbolTable} {s : Stmt} {s' : Bound.Stmt} :
    StmtBinds t s s' u → t.MutablesIn nodes → s'.nodes ⊆ nodes →
    Assigning (Allows nodes) s'.code ∧ u.MutablesIn nodes
  | .uninitialized mark name mutable _, known, inside => by
    rw [Bound.Stmt.nodes] at inside
    rw [Bound.Stmt.code]
    exact ⟨.cons instrAssigning defineAssigning,
      known.define fun _ => ⟨_, inside List.mem_cons_self, rfl⟩⟩
  | .initialized mark name mutable _ inits, known, inside => by
    rw [Bound.Stmt.nodes] at inside
    obtain ⟨init, own⟩ := List.append_subset.mp inside
    rw [Bound.Stmt.code]
    exact ⟨(exprAssigning inits known init).append defineAssigning,
      (known.same (exprVars inits)).define fun _ => ⟨_, own List.mem_cons_self, rfl⟩⟩
  | .functionDecl mark name _ _ taken bodies, known, inside => by
    rw [Bound.Stmt.nodes] at inside
    obtain ⟨both, -⟩ := List.append_subset.mp inside
    obtain ⟨params, body⟩ := List.append_subset.mp both
    have seen {type : Ty} : (t.define name type false false).2.MutablesIn nodes := known.fixed
    have opened {type : Ty} : (t.define name type false false).2.push.MutablesIn nodes := seen.push
    have after := ((paramsVars taken).trans (.same (blockVars bodies))).popped
    rw [Bound.Stmt.code]
    exact ⟨(procAssigning (paramsAssigning taken opened params)
      (blockAssigning bodies (paramsMutables taken opened) body)).append defineAssigning,
      (seen.same after).fixed⟩
  | .typeAlias mark name _, known, _ => by
    rw [Bound.Stmt.code]
    exact ⟨.nil, known.same SymbolTable.defineTypeVars⟩
  | .branch mark conditions thens, known, inside => by
    rw [Bound.Stmt.nodes] at inside
    obtain ⟨both, -⟩ := List.append_subset.mp inside
    obtain ⟨condition, branch⟩ := List.append_subset.mp both
    have next := known.same (exprVars conditions)
    rw [Bound.Stmt.code]
    exact ⟨(exprAssigning conditions known condition).append
      (.cons jumpAssigning (blockAssigning thens next branch)),
      next.same (blockVars thens)⟩
  | .choice mark conditions thens elses, known, inside => by
    rw [Bound.Stmt.nodes] at inside
    obtain ⟨all, -⟩ := List.append_subset.mp inside
    obtain ⟨both, otherwise⟩ := List.append_subset.mp all
    obtain ⟨condition, branch⟩ := List.append_subset.mp both
    have next := known.same (exprVars conditions)
    obtain ⟨second, last⟩ := stmtAssigning elses (next.same (blockVars thens)) otherwise
    rw [Bound.Stmt.code]
    exact ⟨((exprAssigning conditions known condition).append
      (.cons jumpAssigning (blockAssigning thens next branch))).append
        (.cons jumpAssigning second), last⟩
  | .loop mark conditions bodies, known, inside => by
    rw [Bound.Stmt.nodes] at inside
    obtain ⟨both, -⟩ := List.append_subset.mp inside
    obtain ⟨condition, body⟩ := List.append_subset.mp both
    have next := known.same (exprVars conditions)
    rw [Bound.Stmt.code]
    exact ⟨((exprAssigning conditions known condition).append
      (.cons jumpAssigning (blockAssigning bodies next body))).append
        jumpAssigning, next.same (blockVars bodies)⟩
  | .bare mark, known, _ => by
    rw [Bound.Stmt.code]
    exact ⟨.cons instrAssigning instrAssigning, known⟩
  | .ret mark values, known, inside | .expr mark values, known, inside => by
    rw [Bound.Stmt.nodes] at inside
    rw [Bound.Stmt.code]
    exact ⟨(exprAssigning values known (List.append_subset.mp inside).1).append
      instrAssigning, known.same (exprVars values)⟩
  | .block bodies, known, inside => by
    rw [Bound.Stmt.nodes] at inside
    rw [Bound.Stmt.code]
    exact ⟨blockAssigning bodies known inside, known.same (blockVars bodies)⟩

theorem blockAssigning {t u : SymbolTable} {body : Block} {body' : Bound.Block} :
    BlockBinds t body body' u → t.MutablesIn nodes → body'.nodes ⊆ nodes →
    Assigning (Allows nodes) body'.code
  | .mk mark bodies, known, inside => by
    rw [Bound.Block.nodes] at inside
    have inner := stmtsAssigning bodies known.push
      (List.append_subset.mp inside).1
    rw [Bound.Block.code]
    exact (Assigning.cons instrAssigning inner).append instrAssigning

theorem stmtsAssigning {t u : SymbolTable} {body : List Stmt} {body' : List Bound.Stmt} :
    StmtsBind t body body' u → t.MutablesIn nodes → Bound.stmtNodes body' ⊆ nodes →
    Assigning (Allows nodes) (stmtsCode body')
  | .nil, _, _ => by
    rw [stmtsCode]
    exact .nil
  | .cons first others, known, inside => by
    rw [Bound.stmtNodes] at inside
    obtain ⟨head, rest⟩ := List.append_subset.mp inside
    obtain ⟨code, next⟩ := stmtAssigning first known head
    rw [stmtsCode]
    exact code.append (stmtsAssigning others next rest)

end

end

namespace Bound

theorem programAssigning {nodes : List Node} {t u : SymbolTable} {p : Quill.Program} {p' : Program}
    (binds : StmtsBind t p p' u) (known : t.MutablesIn nodes) (inside : stmtNodes p' ⊆ nodes) :
    Assigning (Allows nodes) (programCode p') := by
  induction p' using programCode.induct generalizing t p with
  | case1 =>
    rw [programCode]
    exact .flat rfl (by decide)
  | case2 m value =>
    cases binds with
    | cons first others =>
      cases first with
      | expr m values =>
        rw [stmtNodes, Stmt.nodes] at inside
        rw [programCode]
        exact (exprAssigning values known
          (List.append_subset.mp (List.append_subset.mp inside).1).1).append (.flat rfl (by decide))
  | case3 s rest other ih =>
    cases binds with
    | cons first others =>
      rw [stmtNodes] at inside
      obtain ⟨head, tail⟩ := List.append_subset.mp inside
      obtain ⟨code, next⟩ := stmtAssigning first known head
      rw [programCode]
      · exact code.append (ih others next tail)
      · exact other

end Bound

theorem compiledAssigning {source : String} {folding : Bool} {c : Compiled}
    (compiled : compile source folding = .ok c) :
    Assigning (Allows (Bound.stmtNodes (bind c.program).1)) c.code := by
  obtain ⟨-, u, binds⟩ := compiledBinds compiled
  have assigning := Bound.programAssigning binds initialMutables (List.Subset.refl _)
  rw [compiledCode compiled]
  cases folding with
  | false => exact assigning
  | true => exact assigning.optimized

namespace Machine

/-- Wherever a variable is assigned, the name on top of the stack is that of a mutable one that the
binder found there. -/
def Permitted (nodes : List Bound.Node) (m : Machine) : Prop :=
  ∀ i, m.current.instr? = some i → i.opcode = .store →
    ∃ name source rest, m.current.stack = ⟨.str name, source⟩ :: rest ∧ Allows nodes i.source name

theorem Scoped.permitted {nodes : List Bound.Node} {m : Machine} (known : m.Scoped)
    (assigns : Assigns (Allows nodes) m.current.routine.code) : m.Permitted nodes := by
  -- The name that an assignment takes off the stack is the one in front of it.
  intro i found op
  change m.current.routine.code[m.current.ip]? = some i at found
  obtain ⟨before, name, source, ip, named, allows⟩ := assigns _ i found op
  obtain ⟨p, ⟨-, last, points, start, -, -, covers⟩, matched⟩ := known.here
  cases covers.fits named with
  | jump _ jumps _ _ _ => cases jumps.2
  | exit other _ => cases other
  | straight pushed =>
    obtain ⟨pushed, -⟩ := pushed
    rw [ip] at start found
    rw [start] at pushed
    generalize points before = earlier at pushed
    cases covers.fits found with
    | jump _ jumps _ _ _ =>
      have jump := jumps.2
      rw [op] at jump
      cases jump
    | exit other _ => cases op.symm.trans other
    | straight taken =>
      obtain ⟨taken, -⟩ := taken
      rw [start] at taken
      generalize points (before + 1 + 1) = later at taken
      cases taken with
      | use _ _ =>
        cases pushed with
        | name _ same =>
          cases same
          obtain ⟨source, rest, stack, -⟩ := matched.named
          exact ⟨_, source, rest, stack, allows⟩
      | plain plain =>
        rw [op] at plain
        cases plain
      | name other _ | define other _ _ | function other _ _ | beginScope other
      | endScope other _ => cases op.symm.trans other

end Machine

theorem allowsInherited {nodes : List Bound.Node} :
    Machine.Inherited fun r => Assigning (Allows nodes) r.code := by
  intro r ip i assigning found slot c holds
  cases assigning with
  | intro _ inner => exact inner i (List.mem_of_getElem? found) slot c holds

/-- Runs of compiled programs, in any configuration, assign no variables but those that the binder
allowed, if no instruction sequence is too long for a jump. -/
theorem compiledPermitted {source : String} {folding : Bool} {c : Compiled}
    (compiled : compile source folding = .ok c)
    (short : Short (Bound.programCode (bind c.program).1)) {setup : Setup} {fuel : Nat}
    {n : Machine} (reached : (Machine.new.load c.code).run setup fuel = .running n) :
    n.Permitted (Bound.stmtNodes (bind c.program).1) := by
  have start : (Machine.new.load c.code).Alike
      (Machine.sameLink setup fun r => Assigning (Allows (Bound.stmtNodes (bind c.program).1)) r.code)
      (Machine.new.load c.code) :=
    { scopes := newAlike _
      output := rfl
      diagnostics := .nil
      nextId := rfl
      current := ⟨.nil, rfl, ⟨rfl, compiledAssigning compiled⟩, .nil, .inr rfl⟩
      outer := .nil }
  have alike := Machine.sameRun allowsInherited start fuel
  have known := (compiledScoped compiled short).run setup fuel
  rw [reached] at alike known
  cases alike.current.routine.2 with
  | intro assigns _ =>
    cases known with
    | running known => exact known.permitted assigns

namespace Bound

def Node.declares (n : Node) : List VarSymbol :=
  match n.outcome with
  | .letDecl symbol => [symbol]
  | .function symbol params _ _ => symbol.toList ++ params
  | _ => []

/-- No name is declared both with and without `mut`, with the built-in functions and the parameters
counted among what is declared without. -/
def NamesApart (nodes : List Node) : Prop :=
  ∀ symbol ∈ nodes.flatMap Node.declares, symbol.mutable →
    ∀ other ∈ SymbolTable.initial.vars.flatten ++ nodes.flatMap Node.declares,
      other.name = symbol.name → other.mutable

instance : DecidablePred NamesApart := fun nodes =>
  inferInstanceAs (Decidable (∀ symbol ∈ nodes.flatMap Node.declares, symbol.mutable →
    ∀ other ∈ SymbolTable.initial.vars.flatten ++ nodes.flatMap Node.declares,
      other.name = symbol.name → other.mutable))

end Bound

/-- Where names are apart, runs assign no name that anything is declared under without `mut`. -/
theorem apartNeverAssigned {source : String} {folding : Bool} {c : Compiled}
    (compiled : compile source folding = .ok c)
    (short : Short (Bound.programCode (bind c.program).1))
    (apart : Bound.NamesApart (Bound.stmtNodes (bind c.program).1)) {setup : Setup} {fuel : Nat}
    {n : Machine} (reached : (Machine.new.load c.code).run setup fuel = .running n) {i : Instr}
    (found : n.current.instr? = some i) (assigns : i.opcode = .store) :
    ∃ name source rest, n.current.stack = ⟨.str name, source⟩ :: rest ∧
      ∀ other ∈ SymbolTable.initial.vars.flatten ++
        (Bound.stmtNodes (bind c.program).1).flatMap Bound.Node.declares,
        other.name = name → other.mutable := by
  obtain ⟨name, source, rest, stack, allows⟩ :=
    compiledPermitted compiled short reached i found assigns
  refine ⟨name, source, rest, stack, ?_⟩
  generalize i.source = written at allows
  cases allows with
  | @intro node declaration symbol _ _ mutable introduced declares =>
    refine apart symbol (List.mem_flatMap.mpr ⟨declaration, introduced, ?_⟩) mutable
    rw [Bound.Node.declares, declares]
    exact List.mem_cons_self

example : (match compile "let mut sum = 0; fn add(step) { sum += step; } { add(2); } sum;" true with
    | .ok c => decide (Bound.NamesApart (Bound.stmtNodes (bind c.program).1) ∧
        Short (Bound.programCode (bind c.program).1))
    | .error _ => false) = true := by
  decide +kernel

end Quill
