import Quill.Proofs.Binding.Statements
import Quill.Proofs.Returning.Generated
import Quill.Proofs.Returning.Steps

/-! Calls of functions over their own variables. If such a function declares a primitive type, then
a call of it returns a value of that type, or it has got to the end of the body and returns none. -/
namespace Quill

open Bound

theorem Diagnostics.cleanEach {α : Type} {f : α → Diagnostics} {xs : List α}
    (clean : Diagnostics.hasErrors (xs.flatMap f) = false) : ∀ x ∈ xs, (f x).hasErrors = false := by
  induction xs with
  | nil => nofun
  | cons x rest ih =>
    rw [List.flatMap_cons] at clean
    obtain ⟨first, others⟩ := cleanParts clean
    exact List.forall_mem_cons.mpr ⟨first, ih others⟩

theorem returnsFit {type : Ty} {body : Bound.Block}
    (clean : (checkReturns (some type) body).hasErrors = false) :
    ∀ r ∈ body.returns, r.type.assignableTo type = true := by
  unfold checkReturns at clean
  generalize body.returns = returns at clean
  cases returns with
  | nil => nofun
  | cons r rest => exact fun r inside => obligationMet (Diagnostics.cleanEach clean r inside)

namespace Bound.Function

variable {g : Function} {p : Primitive}

def symbols (g : Function) : List VarSymbol := (g.params.map Param.symbol).reverse

def entry (g : Function) : View := ⟨[g.symbols.map VarSymbol.typed], none, [], false⟩

def Gives (g : Function) (p : Primitive) (v : Value) : Prop :=
  v.HasType (.primitive p) ∨ g.body.falls ∧ v = .none

theorem Plain.scopes (plain : g.Plain) {t : SymbolTable} (vars : t.vars = [g.symbols]) :
    OwnScopes (g.params.map (·.symbol.name)) t := by
  have flat : t.vars.flatten = g.symbols := by
    rw [vars]
    exact List.append_nil _
  constructor
  · intro n named
    rw [SymbolTable.names, ← List.map_flatten, flat, symbols, List.map_reverse, List.mem_reverse,
      List.map_map]
    exact named
  · rw [SymbolTable.Declares, flat]
    intro x inside
    obtain ⟨param, given, rfl⟩ := List.mem_map.mp (List.mem_reverse.mp inside)
    exact .ofPrimitive (plain.params param given)

theorem Accepted.bindsAlone (accepted : g.Accepted) :
    ∃ (t outer u : SymbolTable) (body : Quill.Block), t.vars = [g.symbols] ∧
      BlockBinds (t.under outer) body g.body u := by
  -- The scope of the parameters is the only one that the body looks into.
  obtain ⟨span, t, u', u, params, body, taken, binds⟩ := accepted.bound
  have vars := paramsDeclare taken SymbolTable.pushVars
  obtain ⟨_, _, around⟩ := t.varsCons
  rw [around] at vars
  obtain ⟨own, outer, apart, same⟩ := u'.alone vars
  rw [List.append_nil] at apart
  exact ⟨own, outer, u, body, apart, same ▸ binds⟩

theorem Accepted.leads (accepted : g.Accepted) (plain : g.Plain)
    (declared : g.declared = some (.primitive p)) :
    ∃ last, last.live = false ∧ (bodies g.body.nodes (g.Gives p)).closed.Piece g.code
      ⟨g.entry, true⟩ last := by
  obtain ⟨t, outer, u, body, vars, binds⟩ := accepted.bindsAlone
  have returns := accepted.returns
  rw [declared] at returns
  have given (v : Value) (has : v.HasType (.primitive p)) : g.Gives p v := .inl has
  obtain ⟨u₀, -, adds, leads⟩ := blockThrough given binds rfl plain.body (plain.scopes vars)
    accepted.checked (List.Subset.refl _) accepted.short.append.1 (returnsFit returns)
  rw [adds.between] at leads
  have start : between t = g.entry := by
    rw [between, SymbolTable.types, vars]
    rfl
  rw [start] at leads
  have returned : (instr g.body.mark .ret).Acts g.body.nodes (g.Gives p)
      ⟨⟨[g.symbols.map VarSymbol.typed], none, [.literal ⟨g.body.mark, .none⟩ .none], false⟩,
        g.body.falls⟩ ⟨g.entry, false⟩ :=
    .returns rfl fun falls v admits => .inr ⟨falls, literalAdmits admits⟩
  refine ⟨⟨g.entry, false⟩, rfl, (leads true g.body.falls id).append ?_⟩
  exact (noneLeads g.body.mark _ g.body.falls _ fun _ => rfl).append
    (.one ⟨returned, returned.slotless⟩)

end Bound.Function

namespace Machine

structure Begins (g : Function) (code : Code) (m : Machine) : Prop where
  routine : m.current.routine.code = code
  start : m.current.ip = 0
  called : m.current.frames ≠ []
  given : ∃ vars outer, m.scopes.Holds m.current.scope (vars :: outer) ∧ outer ≠ [] ∧
    VarsTyped vars (g.symbols.map VarSymbol.typed)

variable {setup : Setup} {m n : Machine} {c : Closure} {scope : Nat}

theorem pushFrameEnters (called : m.pushFrame setup c scope = .running n) :
    ∃ f frames, m.enter c scope (f :: frames) = .running n := by
  simp only [pushFrame] at called
  split at called
  · cases called
  · exact ⟨_, _, called⟩

theorem invokeEnters (called : m.invoke setup c scope = .running n) :
    ∃ f frames, m.enter c scope (f :: frames) = .running n := by
  simp only [invoke] at called
  split at called
  · split at called
    · exact ⟨_, _, called⟩
    · exact pushFrameEnters called
  · exact pushFrameEnters called

theorem fillEnters {params : List ClosureParam} {symbols : List VarSymbol} {values : List Value}
    {vars : List (String × Value)} {known : List (String × Ty)} {outer : Chain}
    (names : params.map (·.name) = symbols.map (·.name))
    (types : List.Forall₂ (fun v s => v.HasType s.type) values symbols)
    (holds : m.scopes.Holds scope (vars :: outer)) (typed : VarsTyped vars known)
    (called : m.fillParams setup c scope (params.zip (values.map some)) = .running n) :
    ∃ (m' : Machine) (vars' : List (String × Value)) (f : Frame) (frames : List Frame),
      m'.scopes.Holds scope (vars' :: outer) ∧
      VarsTyped vars' (symbols.reverse.map VarSymbol.typed ++ known) ∧
      m'.enter c scope (f :: frames) = .running n := by
  induction types generalizing params m vars known with
  | nil =>
    cases List.map_eq_nil_iff.mp names
    obtain ⟨f, frames, entered⟩ := invokeEnters called
    exact ⟨m, vars, f, frames, holds, typed, entered⟩
  | @cons v s values symbols has _ ih =>
    obtain ⟨param, rest, rfl, name, names⟩ := List.map_eq_cons_iff.mp names
    rw [List.map_cons, List.zip_cons_cons, fillParams, name] at called
    obtain ⟨m', vars', f, frames, holds, typed, entered⟩ :=
      ih names (m := { m with scopes := m.scopes.define scope s.name v }) holds.define
        (typed.define has) called
    refine ⟨m', vars', f, frames, holds, ?_, entered⟩
    rw [List.reverse_cons, List.map_append, List.append_assoc]
    exact typed

theorem callBegins {g : Function} {args : List Argument} {values : List Value}
    (names : c.params.map (·.name) = (g.params.map Param.symbol).map (·.name))
    (placed : argumentSlots (c.params.map (·.name)) args = .ok (values.map some))
    (types : List.Forall₂ (fun v s => v.HasType s.type) values (g.params.map Param.symbol))
    (around : ∃ chain, m.scopes.Holds c.scope chain)
    (called : m.callClosure setup c args = .running n) : n.Begins g c.body.code := by
  obtain ⟨chain, around⟩ := around
  have unset : VarsTyped [] [] := fun _ => .none
  simp only [callClosure, placed] at called
  obtain ⟨m', vars, f, frames, holds, typed, entered⟩ :=
    fillEnters names types around.child unset called
  cases entered
  rw [List.append_nil] at typed
  refine ⟨rfl, rfl, List.cons_ne_nil f frames, vars, chain, holds, ?_, typed⟩
  exact List.ne_nil_of_length_pos around.nonempty

end Machine

/-- Of an accepted program, a function over its own variables that declares a primitive type returns
a value of it, from any call with arguments of the parameters' types. Only where the end of the body
is not behind a return may it give none instead: the checker takes one return for enough. -/
theorem returnsDeclared {program : Program}
    (accepted : ((bind program).2 ++ Bound.check (bind program).1 : Diagnostics).hasErrors = false)
    (short : Short (programCode (bind program).1)) {g : Function}
    (inside : g ∈ Bound.stmtFunctions (bind program).1) (plain : g.Plain) {p : Primitive}
    (declared : g.declared = some (.primitive p)) (folding : Bool) (setup : Setup) {fuel : Nat}
    {m down : Machine} (begins : m.Begins g (if folding then optimize g.code else g.code))
    (first : m.FirstDown setup (m.height - 1) fuel down) :
    ∃ x below, down.current.stack = x :: below ∧ g.Gives p x.value := by
  obtain ⟨cleanBound, cleanChecked⟩ := Diagnostics.cleanParts accepted
  obtain ⟨u, binds⟩ := cleanBinds cleanBound
  have fine := programFunctions binds cleanChecked short g inside
  obtain ⟨last, dead, piece⟩ := fine.leads plain declared
  have runs : (bodies g.body.nodes (g.Gives p)).Runs (if folding then optimize g.code else g.code)
      ⟨g.entry, true⟩ last := by
    cases folding with
    | false => exact NestedFlow.runsOfPiece piece
    | true => exact (NestedFlow.runsOfPiece piece).optimized bodiesFold
  have stands := (runs.piece bodiesFold.jumpsOnly).stands
  rw [← begins.routine, ← begins.start] at stands
  obtain ⟨vars, around, holds, enclosed, typed⟩ := begins.given
  obtain ⟨f, base, frames⟩ := List.exists_cons_of_ne_nil begins.called
  have height : m.height - 1 = heightOf base m.outer := by
    rw [Machine.height, heightOf, frames, heightOf, List.length_cons]
    omega
  have body : m.InBody g.body.nodes (g.Gives p) base m.outer :=
    ⟨g.entry, last, ⟨⟨f, frames⟩, rfl, ⟨[vars], around, holds, enclosed, .cons typed .nil⟩,
      ⟨[], m.current.stack, rfl, .nil⟩⟩, dead, stands⟩
  rw [height] at first
  exact body.follow first

/-- The same from where the call is made, if it gives values to all parameters. -/
theorem callReturnsDeclared {program : Program}
    (accepted : ((bind program).2 ++ Bound.check (bind program).1 : Diagnostics).hasErrors = false)
    (short : Short (programCode (bind program).1)) {g : Function}
    (inside : g ∈ Bound.stmtFunctions (bind program).1) (plain : g.Plain) {p : Primitive}
    (declared : g.declared = some (.primitive p)) (folding : Bool) (setup : Setup) {fuel : Nat}
    {m n down : Machine} {c : Closure} {args : List Argument} {values : List Value}
    (body : c.body.code = if folding then optimize g.code else g.code)
    (names : c.params.map (·.name) = (g.params.map Param.symbol).map (·.name))
    (placed : argumentSlots (c.params.map (·.name)) args = .ok (values.map some))
    (types : List.Forall₂ (fun v s => v.HasType s.type) values (g.params.map Param.symbol))
    (around : ∃ chain, m.scopes.Holds c.scope chain)
    (called : m.callClosure setup c args = .running n)
    (first : n.FirstDown setup (n.height - 1) fuel down) :
    ∃ x below, down.current.stack = x :: below ∧ g.Gives p x.value := by
  have begins := Machine.callBegins names placed types around called
  rw [body] at begins
  exact returnsDeclared accepted short inside plain declared folding setup begins first

-- The end of a body that is not behind a return is reached indeed.
example : (match compile "fn f(c: bool): int \x7b if c \x7b return 1; \x7d \x7d f(false);" true with
    | .ok c =>
      match (Machine.new.load c.code).run ⟨.standard, c.spans, none, true⟩ 60 with
      | .ended m => decide (m.current.top?.map Value.typeName = some "none")
      | _ => false
    | .error _ => false) = true := by decide +kernel

end Quill
