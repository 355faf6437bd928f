import Quill.Proofs.Binding.Rules
import Quill.Proofs.Parsing.Braced

/-! The variables in static scopes. Expressions and blocks leave them as they were; what a statement
adds to them it adds to the innermost scope. -/
namespace Quill

namespace Scopes

variable {α : Type} {s : Scopes α} {here : List α} {outer : List (List α)}

theorem allCons (s : Scopes α) : ∃ here outer, s.all = here :: outer := by
  obtain ⟨_ | ⟨here, outer⟩, global⟩ := s <;> exact ⟨_, _, rfl⟩

theorem addAll {x : α} (all : s.all = here :: outer) : (s.add x).all = (x :: here) :: outer := by
  obtain ⟨_ | ⟨here, outer⟩, global⟩ := s <;> cases all <;> rfl

theorem popAll (all : s.all = here :: outer) (more : outer ≠ []) : s.pop.all = outer := by
  obtain ⟨_ | ⟨here, outer⟩, global⟩ := s
  · cases all
    exact (more rfl).elim
  · cases all
    rfl

end Scopes

namespace SymbolTable

def vars (t : SymbolTable) : List (List VarSymbol) := t.varScopes.all

def names (t : SymbolTable) : List (List String) := t.vars.map (·.map VarSymbol.name)

variable {t u : SymbolTable} {name : String} {type : Ty} {mutable isIntrinsic : Bool}

theorem namesSame (same : u.vars = t.vars) : u.names = t.names :=
  congrArg (List.map (List.map VarSymbol.name)) same

theorem varsCons (t : SymbolTable) : ∃ inner outer, t.vars = inner :: outer := t.varScopes.allCons

theorem namesCons (t : SymbolTable) : ∃ inner outer, t.names = inner :: outer := by
  obtain ⟨inner, outer, whole⟩ := t.varsCons
  exact ⟨_, _, congrArg (List.map (List.map VarSymbol.name)) whole⟩

theorem pushVars : t.push.vars = [] :: t.vars := rfl

theorem popVars {inner : List VarSymbol} {outer : List (List VarSymbol)}
    (vars : t.vars = inner :: outer) (more : outer ≠ []) : t.pop.vars = outer :=
  Scopes.popAll vars more

theorem defineVars {inner : List VarSymbol} {outer : List (List VarSymbol)}
    (vars : t.vars = inner :: outer) : (t.define name type mutable isIntrinsic).2.vars =
      ((t.define name type mutable isIntrinsic).1 :: inner) :: outer :=
  Scopes.addAll vars

theorem defineTypeVars : (t.defineType name type).vars = t.vars := rfl

theorem defineSymbol : (t.define name type mutable isIntrinsic).1.name = name := rfl

theorem pushNames : t.push.names = [] :: t.names := rfl

theorem defineNames {inner : List String} {outer : List (List String)}
    (names : t.names = inner :: outer) :
    (t.define name type mutable isIntrinsic).2.names = (name :: inner) :: outer := by
  obtain ⟨_, _, whole⟩ := t.varsCons
  rw [SymbolTable.names, whole] at names
  cases names
  rw [SymbolTable.names, defineVars whole]
  rfl

theorem lookupVars {symbol : VarSymbol} (found : t.lookup name = some symbol) :
    symbol ∈ t.vars.flatten ∧ symbol.name = name := by
  rw [SymbolTable.lookup, Scopes.find?] at found
  exact ⟨List.mem_of_find?_eq_some found, by simpa using List.find?_some found⟩

theorem lookupNames {symbol : VarSymbol} (found : t.lookup name = some symbol) :
    name ∈ t.names.flatten := by
  obtain ⟨inside, rfl⟩ := lookupVars found
  rw [names, ← List.map_flatten]
  exact List.mem_map_of_mem inside

end SymbolTable

def Extends (t u : SymbolTable) : Prop :=
  ∃ before after outer, t.vars = before :: outer ∧ u.vars = after :: outer

namespace Extends

variable {t t' u : SymbolTable}

theorem same (vars : u.vars = t.vars) : Extends t u := by
  obtain ⟨inner, outer, whole⟩ := t.varsCons
  exact ⟨inner, inner, outer, whole, vars.trans whole⟩

theorem define {name : String} {type : Ty} {mutable isIntrinsic : Bool} :
    Extends t (t.define name type mutable isIntrinsic).2 := by
  obtain ⟨inner, outer, whole⟩ := t.varsCons
  exact ⟨inner, _, outer, whole, SymbolTable.defineVars whole⟩

theorem trans (first : Extends t t') (second : Extends t' u) : Extends t u := by
  obtain ⟨before, middle, outer, here, there⟩ := first
  obtain ⟨_, after, _, there', last⟩ := second
  cases there.symm.trans there'
  exact ⟨before, after, outer, here, last⟩

theorem opened (inner : Extends t.push u) : ∃ after, u.vars = after :: t.vars := by
  obtain ⟨_, after, outer, before, last⟩ := inner
  cases SymbolTable.pushVars.symm.trans before
  exact ⟨after, last⟩

theorem openedNames (inner : Extends t.push u) : ∃ after, u.names = after :: t.names := by
  obtain ⟨after, last⟩ := inner.opened
  exact ⟨_, congrArg (List.map (List.map VarSymbol.name)) last⟩

theorem popped (inner : Extends t.push u) : u.pop.vars = t.vars := by
  obtain ⟨after, last⟩ := inner.opened
  obtain ⟨_, _, whole⟩ := t.varsCons
  exact SymbolTable.popVars last (by rw [whole]; nofun)

end Extends

mutual

theorem exprVars {expected : Option Ty} {t u : SymbolTable} {e : Expr} {b : Bound.Expr} :
    ExprBinds expected t e b u → u.vars = t.vars
  | .literal .. | .ident .. | .step .. => rfl
  | .binary _ lefts rights _ => (exprVars rights).trans (exprVars lefts)
  | .unary _ operands _ => exprVars operands
  | .assign _ _ _ values | .update _ _ _ values _ => exprVars values
  | .call _ callees _ given => (argsVars given).trans (exprVars callees)
  | .function _ _ taken bodies => ((paramsVars taken).trans (.same (blockVars bodies))).popped
  | .object _ listed => propertiesVars listed
  | .member _ objects keys _ => (keyVars keys).trans (exprVars objects)
  | .grouping _ inners => exprVars inners

theorem argsVars {types : List Ty} {t u : SymbolTable} {args : List Arg} {args' : List Bound.Arg} :
    ArgsBind types t args args' u → u.vars = t.vars
  | .nil => rfl
  | .cons _ values others => (argsVars others).trans (exprVars values)

theorem paramsVars {span : Span} {t u : SymbolTable} {params : List Param}
    {params' : List Bound.Param} : ParamsBind span t params params' u → Extends t u
  | .nil => .same rfl
  | .required _ _ others => Extends.define.trans (paramsVars others)
  | .optional _ _ defaults others =>
    (Extends.same (exprVars defaults)).trans (Extends.define.trans (paramsVars others))

theorem keyVars {t u : SymbolTable} {key : Key} {key' : Bound.Key} :
    KeyBinds t key key' u → u.vars = t.vars
  | .known _ => rfl
  | .computed keys => exprVars keys

theorem propertiesVars {expected : Option Ty} {shape last : Shape} {t u : SymbolTable}
    {properties : List Property} {properties' : List Bound.Property} :
    PropertiesBind expected shape t properties properties' last u → u.vars = t.vars
  | .nil => rfl
  | .cons keys values _ others =>
    (propertiesVars others).trans ((exprVars values).trans (keyVars keys))

theorem stmtVars {t u : SymbolTable} {s : Stmt} {s' : Bound.Stmt} : StmtBinds t s s' u → Extends t u
  | .uninitialized .. => .define
  | .initialized _ _ _ _ inits => (Extends.same (exprVars inits)).trans .define
  | .functionDecl _ _ _ _ taken bodies => by
    have inner := ((paramsVars taken).trans (.same (blockVars bodies))).popped
    exact Extends.define.trans ((Extends.same inner).trans .define)
  | .typeAlias .. => .same SymbolTable.defineTypeVars
  | .branch _ conditions thens => .same ((blockVars thens).trans (exprVars conditions))
  | .choice _ conditions thens elses =>
    (Extends.same ((blockVars thens).trans (exprVars conditions))).trans (stmtVars elses)
  | .loop _ conditions bodies => .same ((blockVars bodies).trans (exprVars conditions))
  | .bare _ => .same rfl
  | .ret _ values | .expr _ values => .same (exprVars values)
  | .block bodies => .same (blockVars bodies)

theorem blockVars {t u : SymbolTable} {body : Block} {body' : Bound.Block} :
    BlockBinds t body body' u → u.vars = t.vars
  | .mk _ bodies => (stmtsVars bodies).popped

theorem stmtsVars {t u : SymbolTable} {body : List Stmt} {body' : List Bound.Stmt} :
    StmtsBind t body body' u → Extends t u
  | .nil => .same rfl
  | .cons first others => (stmtVars first).trans (stmtsVars others)

end

theorem branchVars {t u : SymbolTable} {s : Stmt} {s' : Bound.Stmt} (closed : s.Closed)
    (binds : StmtBinds t s s' u) : u.vars = t.vars := by
  induction s using Stmt.Closed.induct generalizing t u s' with
  | case1 body =>
    cases binds with
    | block bodies => exact blockVars bodies
  | case2 mark condition thenBranch =>
    cases binds with
    | branch _ conditions thens => exact (blockVars thens).trans (exprVars conditions)
  | case3 mark condition thenBranch elseBranch ih =>
    rw [Stmt.Closed] at closed
    cases binds with
    | choice _ conditions thens elses =>
      exact (ih closed elses).trans ((blockVars thens).trans (exprVars conditions))
  | case4 s notBlock notBranch notChoice =>
    rw [Stmt.Closed] at closed
    · exact closed.elim
    · exact notBlock
    · exact notBranch
    · exact notChoice

section
variable {t u : SymbolTable}

theorem exprNames {expected : Option Ty} {e : Expr} {b : Bound.Expr}
    (binds : ExprBinds expected t e b u) : u.names = t.names :=
  SymbolTable.namesSame (exprVars binds)

theorem blockNames {body : Block} {body' : Bound.Block} (binds : BlockBinds t body body' u) :
    u.names = t.names :=
  SymbolTable.namesSame (blockVars binds)

end

end Quill
