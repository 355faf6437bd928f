import Quill.Proofs.Returning.Functions
import Quill.Proofs.Soundness.Generated

/-! Functions over their own parameters and variables. The scopes around a function play no part in
how such a body is bound. -/
namespace Quill

def Ty.isPrimitive : Ty → Bool
  | .primitive _ => true
  | _ => false

theorem Ty.Declared.ofPrimitive {type : Ty} (primitive : type.isPrimitive) : type.Declared := by
  cases type with
  | primitive p => exact .primitive p
  | _ => cases primitive

namespace Bound

def Expr.uses (names : List String) : Expr → Bool
  | .literal .. => true
  | .ident _ name _ | .step _ _ name _ => decide (name ∈ names)
  | .binary _ _ _ left right => left.uses names && right.uses names
  | .unary _ _ _ value | .grouping _ value => value.uses names
  | .assign _ name _ _ value => decide (name ∈ names) && value.uses names
  | .call .. | .function .. | .object .. | .member .. => false

def Stmt.symbols : Stmt → List VarSymbol
  | .letDecl _ symbol _ => [symbol]
  | _ => []

def Stmt.isBranch : Stmt → Bool
  | .block _ | .ifElse .. => true
  | _ => false

mutual

def Stmt.uses (names : List String) : Stmt → Bool
  | .letDecl _ symbol (some init) => symbol.type.isPrimitive && init.uses names
  | .ifElse _ condition thenBranch none => condition.uses names && thenBranch.uses names
  | .ifElse _ condition thenBranch (some elseBranch) =>
    condition.uses names && thenBranch.uses names && elseBranch.isBranch && elseBranch.uses names
  | .whileLoop _ condition body => condition.uses names && body.uses names
  | .ret _ none => true
  | .ret _ (some value) | .expr _ value => value.uses names
  | .block body => body.uses names
  | .letDecl _ _ none | .functionDecl .. | .typeAlias .. => false

def Block.uses (names : List String) : Block → Bool
  | .mk _ _ body => stmtsUse names body

def stmtsUse (names : List String) : List Stmt → Bool
  | [] => true
  | s :: rest => s.uses names && stmtsUse (s.symbols.map (·.name) ++ names) rest

end

mutual

/-- Whether a run may get behind the statement: it does not if each way through it returns. -/
def Stmt.falls : Stmt → Bool
  | .ret .. => false
  | .ifElse _ _ thenBranch (some elseBranch) => thenBranch.falls || elseBranch.falls
  | .block body => body.falls
  | .letDecl .. | .functionDecl .. | .typeAlias .. => true
  | .ifElse _ _ _ none | .whileLoop .. | .expr .. => true

def Block.falls : Block → Bool
  | .mk _ _ body => stmtsFall body

def stmtsFall : List Stmt → Bool
  | [] => true
  | s :: rest => s.falls && stmtsFall rest

end

/-- Parameters of primitive types, and a body over them and its own variables. -/
structure Function.Plain (g : Function) : Prop where
  params : ∀ p ∈ g.params, p.symbol.type.isPrimitive
  body : g.body.uses (g.params.map (·.symbol.name))

end Bound

namespace Scopes

variable {α : Type} (s outer : Scopes α)

def under : Scopes α := ⟨s.inner ++ s.global :: outer.inner, outer.global⟩

theorem allUnder : (s.under outer).all = s.all ++ outer.all := by
  simp only [under, all, List.append_assoc, List.cons_append, List.nil_append]

theorem addUnder (x : α) : (s.under outer).add x = (s.add x).under outer := by
  obtain ⟨_ | ⟨here, rest⟩, global⟩ := s <;> rfl

end Scopes

namespace SymbolTable

def under (t outer : SymbolTable) : SymbolTable where
  symbols := t.symbols
  varScopes := t.varScopes.under outer.varScopes
  typeScopes := t.typeScopes.under outer.typeScopes
  parallel := by
    simp only [Scopes.under, List.length_append, List.length_cons, t.parallel, outer.parallel]

variable {t outer : SymbolTable} {name : String}

theorem lookupNamed (named : name ∈ t.names.flatten) : ∃ symbol, t.lookup name = some symbol := by
  rw [names, ← List.map_flatten] at named
  obtain ⟨symbol, declared, same⟩ := List.mem_map.mp named
  exact Option.isSome_iff_exists.mp
    (List.find?_isSome.mpr ⟨symbol, declared, decide_eq_true same⟩)

theorem lookupUnder (named : name ∈ t.names.flatten) :
    (t.under outer).lookup name = t.lookup name := by
  obtain ⟨symbol, found⟩ := lookupNamed named
  rw [found]
  rw [lookup, Scopes.find?] at found ⊢
  rw [under, Scopes.allUnder, List.flatten_append, List.find?_append, found, Option.some_or]

theorem defineUnder {type : Ty} {mutable isIntrinsic : Bool} :
    (t.under outer).define name type mutable isIntrinsic =
      ((t.define name type mutable isIntrinsic).1,
        (t.define name type mutable isIntrinsic).2.under outer) := by
  simp only [define, under, Scopes.addUnder]

theorem popUnder {inner : List VarSymbol} {more : List (List VarSymbol)}
    (vars : t.vars = inner :: more) (around : more ≠ []) :
    (t.under outer).pop = t.pop.under outer := by
  -- A scope is closed before those around.
  obtain ⟨symbols, ⟨_ | ⟨here, rest⟩, global⟩, ⟨_ | ⟨types, others⟩, known⟩, parallel⟩ := t
  · cases vars
    exact (around rfl).elim
  · cases parallel
  · cases parallel
  · rfl

theorem alone {inner scope : List VarSymbol} {more : List (List VarSymbol)} (t : SymbolTable)
    (vars : t.vars = inner :: scope :: more) :
    ∃ own outer : SymbolTable, own.vars = [inner] ∧ own.under outer = t := by
  obtain ⟨symbols, ⟨_ | ⟨here, rest⟩, global⟩, ⟨_ | ⟨types, others⟩, known⟩, parallel⟩ := t
  · cases vars
  · cases parallel
  · cases parallel
  · obtain ⟨same, -⟩ := List.cons.inj vars
    exact ⟨⟨symbols, ⟨[], here⟩, ⟨[], types⟩, rfl⟩,
      ⟨#[], ⟨rest, global⟩, ⟨others, known⟩, Nat.succ.inj parallel⟩,
      congrArg ([·]) same, rfl⟩

end SymbolTable

def Opcode.isFlat : Opcode → Bool
  | .pushObject | .getMember | .call | .proc | .exit => false
  | _ => true

def Flat (code : Code) : Prop := ∀ i ∈ code, i.opcode.isFlat

namespace Flat

variable {a b : Code}

theorem append (first : Flat a) (second : Flat b) : Flat (a ++ b) :=
  List.forall_mem_append.mpr ⟨first, second⟩

theorem one {i : Instr} (flat : i.opcode.isFlat) : Flat [i] := List.forall_mem_singleton.mpr flat

theorem literal (m : Mark) (value : Literal) : Flat (Bound.literalCode m value) := by
  cases value <;> exact .one rfl

theorem named {m : Mark} {name : String} {op : Opcode} (flat : op.isFlat) :
    Flat [Bound.push m (.str name), Bound.instr m op] :=
  Flat.append (a := [Bound.push m (.str name)]) (.one rfl) (.one flat)

theorem binary {op : Opcode} (binary : op.isBinary) (m : Mark) : Flat [Bound.instr m op] := by
  refine .one ?_
  change op.isFlat
  cases op <;> first | rfl | cases binary

theorem unary {op : Opcode} (unary : op.isUnary) (m : Mark) : Flat [Bound.instr m op] := by
  refine .one ?_
  change op.isFlat
  cases op <;> first | rfl | cases unary

end Flat

/-- The expression is bound so without the scopes around, and without any functions and objects. -/
structure BindsAlone (expected : Option Ty) (t : SymbolTable) (e : Expr) (b : Bound.Expr) :
    Prop where
  binds : ExprBinds expected t e b t
  free : e.functionFree
  flat : Flat b.code

theorem exprAlone {names : List String} {t₀ outer : SymbolTable}
    (own : ∀ n ∈ names, n ∈ t₀.names.flatten) {expected : Option Ty} {t u : SymbolTable} {e : Expr}
    {b : Bound.Expr} :
    ExprBinds expected t e b u → t = t₀.under outer → b.uses names →
    u = t ∧ BindsAlone expected t₀ e b
  | .literal mark value, _, _ => by
    refine ⟨rfl, .literal mark value, by rw [Expr.functionFree], ?_⟩
    rw [Bound.Expr.code]
    exact .literal mark value
  | .ident mark found, same, keeps => by
    rw [Bound.Expr.uses, decide_eq_true_iff] at keeps
    rw [same, SymbolTable.lookupUnder (own _ keeps)] at found
    refine ⟨rfl, .ident mark found, by rw [Expr.functionFree], ?_⟩
    rw [Bound.Expr.code]
    exact .named rfl
  | .binary mark lefts rights resolved, same, keeps => by
    rw [Bound.Expr.uses, Bool.and_eq_true] at keeps
    obtain ⟨stays, left⟩ := exprAlone own lefts same keeps.1
    obtain ⟨stays', right⟩ := exprAlone own rights (stays.trans same) keeps.2
    refine ⟨stays'.trans stays, .binary mark left.binds right.binds resolved, ?_, ?_⟩
    · rw [Expr.functionFree, left.free, right.free]
      rfl
    · rw [Bound.Expr.code]
      exact (left.flat.append right.flat).append (.binary (Operators.resolvedBinary resolved) _)
  | .unary mark operands resolved, same, keeps => by
    rw [Bound.Expr.uses] at keeps
    obtain ⟨stays, operand⟩ := exprAlone own operands same keeps
    refine ⟨stays, .unary mark operand.binds resolved, ?_, ?_⟩
    · rw [Expr.functionFree, operand.free]
    · rw [Bound.Expr.code]
      exact operand.flat.append (.unary (Operators.resolvedUnary resolved) _)
  | .step mark variableMark found mutable resolved, same, keeps => by
    rw [Bound.Expr.uses, decide_eq_true_iff] at keeps
    rw [same, SymbolTable.lookupUnder (own _ keeps)] at found
    refine ⟨rfl, .step mark variableMark found mutable resolved, by rw [Expr.functionFree], ?_⟩
    rw [Bound.Expr.code]
    exact ((((Flat.named rfl).append (.named rfl)).append
      (.unary (Operators.resolvedStep resolved) _)).append (.named rfl)).append (.one rfl)
  | .assign mark found mutable values, same, keeps => by
    rw [Bound.Expr.uses, Bool.and_eq_true, decide_eq_true_iff] at keeps
    rw [same, SymbolTable.lookupUnder (own _ keeps.1)] at found
    obtain ⟨stays, value⟩ := exprAlone own values same keeps.2
    refine ⟨stays, .assign mark found mutable value.binds, ?_, ?_⟩
    · rw [Expr.functionFree, value.free]
    · rw [Bound.Expr.code]
      exact value.flat.append (.named rfl)
  | .update mark found mutable values resolved, same, keeps => by
    rw [Bound.Expr.uses, Bool.and_eq_true, decide_eq_true_iff] at keeps
    rw [same, SymbolTable.lookupUnder (own _ keeps.1)] at found
    obtain ⟨stays, value⟩ := exprAlone own values same keeps.2
    refine ⟨stays, .update mark found mutable value.binds resolved, ?_, ?_⟩
    · rw [Expr.functionFree, value.free]
    · rw [Bound.Expr.code]
      exact (((Flat.named rfl).append value.flat).append
        (.binary (Operators.resolvedBinary resolved) _)).append (.named rfl)
  | .grouping mark inners, same, keeps => by
    rw [Bound.Expr.uses] at keeps
    obtain ⟨stays, inner⟩ := exprAlone own inners same keeps
    refine ⟨stays, .grouping mark inner.binds, ?_, ?_⟩
    · rw [Expr.functionFree, inner.free]
    · rw [Bound.Expr.code]
      exact inner.flat
  | .call .., _, keeps | .function .., _, keeps | .object .., _, keeps | .member .., _, keeps => by
    rw [Bound.Expr.uses] at keeps
    cases keeps

theorem paramsDeclare {span : Span} {t u : SymbolTable} {params : List Param}
    {params' : List Bound.Param} {inner : List VarSymbol} {outer : List (List VarSymbol)} :
    ParamsBind span t params params' u → t.vars = inner :: outer →
    u.vars = ((params'.map Bound.Param.symbol).reverse ++ inner) :: outer
  | .nil, vars => vars
  | .required _ _ others, vars => by
    rw [paramsDeclare others (SymbolTable.defineVars vars), List.map_cons, List.reverse_cons,
      List.append_assoc]
    rfl
  | .optional _ _ defaults others, vars => by
    rw [paramsDeclare others (SymbolTable.defineVars ((exprVars defaults).trans vars)),
      List.map_cons, List.reverse_cons, List.append_assoc]
    rfl

end Quill
