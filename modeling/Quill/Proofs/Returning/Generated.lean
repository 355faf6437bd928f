import Quill.Proofs.Returning.Flow

/-! Code of functions over their own variables: where it returns, it returns what the checker has
compared with the declared type, and where it does not, it gets to the end of the body. -/
namespace Quill

open Bound NestedFlow

def between (t : SymbolTable) : View := ⟨t.types, none, [], false⟩

def Adds (symbols : List VarSymbol) (t u : SymbolTable) : Prop :=
  ∃ inner outer, t.vars = inner :: outer ∧ u.vars = (symbols ++ inner) :: outer

structure OwnScopes (names : List String) (t : SymbolTable) : Prop where
  own : ∀ n ∈ names, n ∈ t.names.flatten
  declares : t.Declares

namespace Adds

variable {symbols symbols' : List VarSymbol} {t t' u : SymbolTable} {names : List String}

theorem nothing (vars : u.vars = t.vars) : Adds [] t u := by
  obtain ⟨inner, outer, whole⟩ := t.varsCons
  exact ⟨inner, outer, whole, vars.trans whole⟩

theorem unchanged (adds : Adds [] t u) : u.vars = t.vars := by
  obtain ⟨inner, outer, whole, vars⟩ := adds
  exact vars.trans whole.symm

theorem trans (first : Adds symbols t t') (second : Adds symbols' t' u) :
    Adds (symbols' ++ symbols) t u := by
  obtain ⟨inner, outer, whole, vars⟩ := first
  obtain ⟨_, _, whole', vars'⟩ := second
  cases vars.symm.trans whole'
  exact ⟨inner, outer, whole, by rw [vars', List.append_assoc]⟩

theorem scopes (adds : Adds symbols t u) (declared : ∀ s ∈ symbols, s.type.Declared)
    (scopes : OwnScopes names t) : OwnScopes (symbols.map (·.name) ++ names) u := by
  obtain ⟨inner, outer, whole, vars⟩ := adds
  have named : u.names.flatten = symbols.map (·.name) ++ t.names.flatten := by
    rw [SymbolTable.names, SymbolTable.names, vars, whole]
    simp
  refine ⟨fun n inside => ?_, ?_⟩
  · rw [named]
    rcases List.mem_append.mp inside with new | old
    · exact List.mem_append_left _ new
    · exact List.mem_append_right _ (scopes.own n old)
  · have declares := scopes.declares
    rw [SymbolTable.Declares, whole] at declares
    rw [SymbolTable.Declares, vars, List.flatten_cons, List.append_assoc]
    exact List.forall_mem_append.mpr ⟨declared, declares⟩

end Adds

theorem Adds.between {t u : SymbolTable} (adds : Adds [] t u) :
    Quill.between u = Quill.between t := by
  rw [Quill.between, Quill.between, SymbolTable.typesSame adds.unchanged]

section
variable {nodes : List Bound.Node} {gives : Value → Prop} {p : Primitive} {names : List String}
  {outer t₀ t u : SymbolTable}

def Through (nodes : List Bound.Node) (gives : Value → Prop) (symbols : List VarSymbol)
    (code : Code) (falls : Bool) (outer t u : SymbolTable) : Prop :=
  ∃ u₀, u = u₀.under outer ∧ Adds symbols t u₀ ∧
    LeadsOn nodes gives code falls (between t) (between u₀)

theorem valueSeen {expected : Option Ty} {e : Expr} {b : Bound.Expr}
    (alone : BindsAlone expected t₀ e b) (scopes : OwnScopes names t₀)
    (clean : (checkExpr b).hasErrors = false) (known : b.nodes ⊆ nodes) :
    (views nodes).closed.Piece b.code (between t₀) ⟨t₀.types, none, [b.core], false⟩ :=
  exprSeen alone.binds alone.free scopes.declares clean known [] false

theorem returnThrough {mark : Mark} {e : Expr} {b : Bound.Expr} (alone : BindsAlone none t₀ e b)
    (scopes : OwnScopes names t₀) (clean : (checkExpr b).hasErrors = false)
    (known : b.nodes ⊆ nodes) (fits : b.type.assignableTo (.primitive p) = true)
    (given : ∀ v : Value, v.HasType (.primitive p) → gives v) (same : t = t₀.under outer) :
    Through nodes gives [] (b.code ++ [instr mark .ret]) false outer t₀ t := by
  refine ⟨t₀, same, .nothing rfl, ?_⟩
  refine (LeadsOn.seen (valueSeen alone scopes clean known) alone.flat).returned fun v admits => ?_
  exact given v ((admits.has (coreType alone.binds)).fits
    (exprSimple alone.binds alone.free scopes.declares) (.primitive p) fits)

theorem noneLeads (mark : Mark) (types : TypedNames) :
    LeadsOn nodes gives [instr mark .pushNone] true ⟨types, none, [], false⟩
      ⟨types, none, [.literal ⟨mark, .none⟩ .none], false⟩ := by
  intro live after same
  rw [same rfl]
  have acts : (instr mark .pushNone).Acts nodes gives ⟨⟨types, none, [], false⟩, live⟩
      ⟨⟨types, none, [.literal ⟨mark, .none⟩ .none], false⟩, live⟩ :=
    .blank rfl ⟨.none, fun same => by cases same; rfl⟩
  exact .one ⟨acts, acts.slotless⟩

theorem letThrough {mark : Mark} {name : String} {mutable : Bool} {annotated : Option Ty}
    {init : Expr} {init' : Bound.Expr} {type : Ty} (alone : BindsAlone annotated t₀ init init')
    (scopes : OwnScopes names t₀) (clean : (checkExpr init').hasErrors = false)
    (known : init'.nodes ⊆ nodes) (fits : init'.type.assignableTo type = true)
    (primitive : type.isPrimitive) (same : t = t₀.under outer) :
    Through nodes gives [(t.define name type mutable false).1] (init'.code ++ define mark name) true
      outer t₀ (t.define name type mutable false).2 := by
  obtain ⟨inner, more, whole⟩ := t₀.varsCons
  have types : t₀.types = inner.map VarSymbol.typed :: more.map (·.map VarSymbol.typed) :=
    congrArg (List.map (List.map VarSymbol.typed)) whole
  have declared := Ty.Declared.ofPrimitive primitive
  have value := valueSeen alone scopes clean known
  rw [same, SymbolTable.defineUnder]
  refine ⟨(t₀.define name type mutable false).2, rfl,
    ⟨inner, more, whole, SymbolTable.defineVars whole⟩, ?_⟩
  rw [between, types] at value
  rw [between, between, SymbolTable.defineTypes types, types]
  refine .seen (value.append (defineSeen mark fun v admits => ?_))
    (alone.flat.append (.named rfl))
  exact (admits.has (coreType alone.binds)).fits
    (exprSimple alone.binds alone.free scopes.declares) declared fits

theorem blockCloses {mark : Mark} {symbols : List VarSymbol} {code : Code} {falls : Bool}
    (inside : Through nodes gives symbols code falls outer t₀.push u) :
    Through nodes gives [] (instr mark .beginScope :: code ++ [instr mark .endScope]) falls outer
      t₀ u.pop := by
  obtain ⟨u₀, rfl, ⟨_, _, whole, vars⟩, leads⟩ := inside
  cases SymbolTable.pushVars.symm.trans whole
  have around : t₀.vars ≠ [] := by
    obtain ⟨inner, more, whole⟩ := t₀.varsCons
    rw [whole]
    exact List.cons_ne_nil inner more
  have closed : u₀.pop.vars = t₀.vars := SymbolTable.popVars vars around
  refine ⟨u₀.pop, SymbolTable.popUnder vars around, .nothing closed, ?_⟩
  have types : u₀.types = (symbols ++ []).map VarSymbol.typed :: t₀.types :=
    congrArg (List.map (List.map VarSymbol.typed)) vars
  have opens : (views nodes).closed.Piece [instr mark .beginScope] (between t₀) (between t₀.push) :=
    flatPiece (v := .none) rfl (.beginScope rfl)
  have kept : t₀.types ≠ [] := fun same => around (List.map_eq_nil_iff.mp same)
  have closes : (views nodes).closed.Piece [instr mark .endScope] (between u₀) (between t₀) := by
    rw [between, types]
    exact flatPiece (v := .none) rfl (.endScope rfl kept)
  rw [(Adds.nothing closed).between]
  have before : LeadsOn nodes gives [instr mark .beginScope] true (between t₀) (between t₀.push) :=
    .seen opens (.one rfl)
  have whole := (before.append leads).append (.seen closes (.one rfl))
  rwa [Bool.true_and, Bool.and_true] at whole

end

section
variable {nodes : List Bound.Node} {gives : Value → Prop} {p : Primitive}
  {outer : SymbolTable}

theorem symbolsDeclared {names : List String} {s : Bound.Stmt} (keeps : s.uses names) :
    ∀ x ∈ s.symbols, x.type.Declared := by
  cases s with
  | letDecl mark symbol init =>
    cases init with
    | none => rw [Bound.Stmt.uses] at keeps; cases keeps
    | some init =>
      rw [Bound.Stmt.uses, Bool.and_eq_true] at keeps
      exact List.forall_mem_singleton.mpr (.ofPrimitive keeps.1)
  | _ => nofun

theorem branchSymbols {s : Bound.Stmt} (branch : s.isBranch) : s.symbols = [] := by
  cases s <;> first | rfl | cases branch

-- The scopes of the function are said apart from those around it (`under`), as the call runs in
-- scopes of its own wherever it is made. A statement that is left by a return has any view behind
-- it.
mutual

theorem stmtThrough (given : ∀ v : Value, v.HasType (.primitive p) → gives v)
    {names : List String} {t₀ t u : SymbolTable} {s : Stmt} {s' : Bound.Stmt} :
    StmtBinds t s s' u → t = t₀.under outer → s'.uses names → OwnScopes names t₀ →
    (checkStmt s').hasErrors = false → s'.nodes ⊆ nodes → Short s'.code →
    (∀ r ∈ s'.returns, r.type.assignableTo (.primitive p) = true) →
    Through nodes gives s'.symbols s'.code s'.falls outer t₀ u
  | .initialized mark name mutable resolved inits, same, keeps, scopes, clean, known, _, _ => by
    rw [Bound.Stmt.uses, Bool.and_eq_true] at keeps
    rw [checkStmt] at clean
    rw [Bound.Stmt.nodes, List.append_subset] at known
    rw [Bound.Stmt.code, Bound.Stmt.falls, Bound.Stmt.symbols]
    obtain ⟨cleanInit, clean⟩ := Diagnostics.cleanParts clean
    obtain ⟨stays, alone⟩ := exprAlone scopes.own inits same keeps.2
    exact letThrough alone scopes cleanInit known.1 (obligationMet clean) keeps.1 (stays.trans same)
  | .branch mark conditions thens, same, keeps, scopes, clean, known, short, returns => by
    rw [Bound.Stmt.uses, Bool.and_eq_true] at keeps
    rw [checkStmt] at clean
    rw [Bound.Stmt.nodes, List.append_subset, List.append_subset] at known
    rw [Bound.Stmt.returns] at returns
    rw [Bound.Stmt.code] at short ⊢
    rw [Bound.Stmt.falls, Bound.Stmt.symbols]
    · obtain ⟨cleanCondition, cleanThen⟩ := Diagnostics.cleanParts clean
      obtain ⟨stays, alone⟩ := exprAlone scopes.own conditions same keeps.1
      obtain ⟨u₀, under, adds, leads⟩ := blockThrough given thens (stays.trans same) keeps.2 scopes
        cleanThen known.1.2 short.append.2.head.2 returns
      rw [adds.between] at leads
      refine ⟨u₀, under, adds, ?_⟩
      rw [adds.between]
      exact .branch (valueSeen alone scopes cleanCondition known.1.1) alone.flat
        (fun _ => .condition (.inl rfl)) leads short.bounds.1
    · nofun
  | .choice mark conditions thens elses, same, keeps, scopes, clean, known, short, returns => by
    simp only [Bound.Stmt.uses, Bool.and_eq_true] at keeps
    obtain ⟨⟨⟨usesCondition, usesThen⟩, isBranch⟩, usesElse⟩ := keeps
    rw [checkStmt] at clean
    rw [Bound.Stmt.nodes, List.append_subset, List.append_subset, List.append_subset] at known
    rw [Bound.Stmt.returns, List.forall_mem_append] at returns
    rw [Bound.Stmt.code] at short ⊢
    rw [Bound.Stmt.falls, Bound.Stmt.symbols]
    · obtain ⟨clean, cleanElse⟩ := Diagnostics.cleanParts clean
      obtain ⟨cleanCondition, cleanThen⟩ := Diagnostics.cleanParts clean
      obtain ⟨⟨⟨knownCondition, knownThen⟩, knownElse⟩, -⟩ := known
      obtain ⟨shortFirst, shortSecond⟩ := short.append
      obtain ⟨stays, alone⟩ := exprAlone scopes.own conditions same usesCondition
      obtain ⟨t₁, under, adds, first⟩ := blockThrough given thens (stays.trans same) usesThen scopes
        cleanThen knownThen shortFirst.append.2.head.2 returns.1
      obtain ⟨u₀, under', adds', second⟩ := stmtThrough given elses under usesElse
        (adds.scopes nofun scopes) cleanElse knownElse shortSecond.head.2 returns.2
      rw [branchSymbols isBranch] at adds'
      rw [adds'.between] at second
      rw [adds.between] at first second
      refine ⟨u₀, under', adds.trans adds', ?_⟩
      rw [(adds.trans adds').between]
      exact .choice (valueSeen alone scopes cleanCondition knownCondition) alone.flat
        (fun _ => .condition (.inl rfl)) rfl first second short.bounds.1
    · nofun
  | .loop mark conditions bodies, same, keeps, scopes, clean, known, short, returns => by
    rw [Bound.Stmt.uses, Bool.and_eq_true] at keeps
    rw [checkStmt] at clean
    rw [Bound.Stmt.nodes, List.append_subset, List.append_subset] at known
    rw [Bound.Stmt.returns] at returns
    rw [Bound.Stmt.code] at short ⊢
    rw [Bound.Stmt.falls, Bound.Stmt.symbols]
    · obtain ⟨cleanCondition, cleanBody⟩ := Diagnostics.cleanParts clean
      obtain ⟨stays, alone⟩ := exprAlone scopes.own conditions same keeps.1
      obtain ⟨u₀, under, adds, leads⟩ := blockThrough given bodies (stays.trans same) keeps.2 scopes
        cleanBody known.1.2 short.append.1.append.2.head.2 returns
      rw [adds.between] at leads
      refine ⟨u₀, under, adds, ?_⟩
      rw [adds.between]
      exact .loop (valueSeen alone scopes cleanCondition known.1.1) alone.flat
        (fun _ => .condition (.inl rfl)) rfl leads short.bounds.1
    · nofun
  | .bare mark, same, _, scopes, _, _, _, returns => by
    rw [Bound.Stmt.returns] at returns
    rw [Bound.Stmt.code, Bound.Stmt.falls, Bound.Stmt.symbols]
    · obtain ⟨⟩ := (Ty.Declared.primitive .none).assignedTo (returns _ List.mem_cons_self)
      refine ⟨t₀, same, .nothing rfl, ?_⟩
      refine (noneLeads mark t₀.types).returned fun v admits => ?_
      rw [literalAdmits admits]
      exact given _ .none
    · nofun
  | .ret mark values, same, keeps, scopes, clean, known, _, returns => by
    rw [Bound.Stmt.uses] at keeps
    rw [checkStmt] at clean
    rw [Bound.Stmt.nodes, List.append_subset] at known
    rw [Bound.Stmt.returns] at returns
    rw [Bound.Stmt.code, Bound.Stmt.falls, Bound.Stmt.symbols]
    · obtain ⟨stays, alone⟩ := exprAlone scopes.own values same keeps
      exact returnThrough alone scopes clean known.1 (returns _ List.mem_cons_self) given
        (stays.trans same)
    · nofun
  | .block bodies, same, keeps, scopes, clean, known, short, returns => by
    rw [Bound.Stmt.uses] at keeps
    rw [checkStmt] at clean
    rw [Bound.Stmt.nodes] at known
    rw [Bound.Stmt.returns] at returns
    rw [Bound.Stmt.code] at short ⊢
    rw [Bound.Stmt.falls, Bound.Stmt.symbols]
    · exact blockThrough given bodies same keeps scopes clean known short returns
    · nofun
  | .expr mark values, same, keeps, scopes, clean, known, _, _ => by
    rw [Bound.Stmt.uses] at keeps
    rw [checkStmt] at clean
    rw [Bound.Stmt.nodes, List.append_subset] at known
    rw [Bound.Stmt.code, Bound.Stmt.falls, Bound.Stmt.symbols]
    · obtain ⟨stays, alone⟩ := exprAlone scopes.own values same keeps
      refine ⟨t₀, stays.trans same, .nothing rfl, ?_⟩
      exact .seen ((valueSeen alone scopes clean known.1).append (popSeen mark))
        (alone.flat.append (.one rfl))
    · nofun
  | .uninitialized .., _, keeps, _, _, _, _, _ | .functionDecl .., _, keeps, _, _, _, _, _
  | .typeAlias .., _, keeps, _, _, _, _, _ => by
    rw [Bound.Stmt.uses] at keeps
    cases keeps

theorem blockThrough (given : ∀ v : Value, v.HasType (.primitive p) → gives v)
    {names : List String} {t₀ t u : SymbolTable} {body : Block} {body' : Bound.Block} :
    BlockBinds t body body' u → t = t₀.under outer → body'.uses names →
    OwnScopes names t₀ → (checkBlock body').hasErrors = false → body'.nodes ⊆ nodes →
    Short body'.code → (∀ r ∈ body'.returns, r.type.assignableTo (.primitive p) = true) →
    Through nodes gives [] body'.code body'.falls outer t₀ u
  | .mk mark bodies, same, keeps, scopes, clean, known, short, returns => by
    rw [Bound.Block.uses] at keeps
    rw [checkBlock] at clean
    rw [Bound.Block.nodes, List.append_subset] at known
    rw [Bound.Block.returns] at returns
    rw [Bound.Block.code] at short ⊢
    rw [Bound.Block.falls]
    have opened : OwnScopes names t₀.push := ⟨scopes.own, scopes.declares.push⟩
    obtain ⟨symbols, inside⟩ := stmtsThrough given bodies (same ▸ rfl) keeps opened clean known.1
      short.append.1.head.2 returns
    exact blockCloses inside

theorem stmtsThrough (given : ∀ v : Value, v.HasType (.primitive p) → gives v)
    {names : List String} {t₀ t u : SymbolTable} {body : List Stmt} {body' : List Bound.Stmt} :
    StmtsBind t body body' u → t = t₀.under outer → stmtsUse names body' →
    OwnScopes names t₀ → (checkStmts body').hasErrors = false → Bound.stmtNodes body' ⊆ nodes →
    Short (stmtsCode body') →
    (∀ r ∈ returnsOf body', r.type.assignableTo (.primitive p) = true) →
    ∃ symbols, Through nodes gives symbols (stmtsCode body') (stmtsFall body') outer t₀ u
  | .nil, same, _, _, _, _, _, _ => by
    rw [stmtsCode, stmtsFall]
    exact ⟨[], t₀, same, .nothing rfl, .seen .nil nofun⟩
  | .cons first others, same, keeps, scopes, clean, known, short, returns => by
    rw [stmtsUse, Bool.and_eq_true] at keeps
    rw [checkStmts] at clean
    rw [Bound.stmtNodes, List.append_subset] at known
    rw [returnsOf, List.forall_mem_append] at returns
    rw [stmtsCode] at short ⊢
    rw [stmtsFall]
    obtain ⟨cleanFirst, cleanRest⟩ := Diagnostics.cleanParts clean
    obtain ⟨shortFirst, shortRest⟩ := short.append
    obtain ⟨t₁, under, adds, leads⟩ := stmtThrough given first same keeps.1 scopes cleanFirst
      known.1 shortFirst returns.1
    have opened := adds.scopes (symbolsDeclared keeps.1) scopes
    obtain ⟨symbols, u₀, under', adds', leads'⟩ := stmtsThrough given others under keeps.2 opened
      cleanRest known.2 shortRest returns.2
    exact ⟨_, u₀, under', adds.trans adds', leads.append leads'⟩

end

end

end Quill
