import Quill.Proofs.Binding.Numbers
import Quill.Proofs.Offsets.Skipped
import Quill.Proofs.Soundness.Generated
import Quill.Proofs.Soundness.Steps

/-! Type soundness of programs without functions: in every run the values that expressions leave have
the types that the binder gave the expressions, and nothing fails but divisions and limits. -/
namespace Quill

namespace Machine

inductive Takes (nodes : List Bound.Node) (m : Machine) (x : Cell) : Prop where
  | name {i : Instr} {n : String} (found : m.current.instr? = some i)
      (op : i.opcode = .load ∨ i.opcode = .store ∨ i.opcode = .define) (value : x.value = .str n)
      (source : x.source = i.source)
  | member {i : Instr} {k : PropertyName} (found : m.current.instr? = some i)
      (op : i.opcode = .getMember) (key : x.value.key? = some k) (source : x.source = i.source)
  | key {w : Waiting} {outer : List Waiting} {note : Bound.Note} {properties : List Bound.Property}
      {p : Bound.Property} {k : PropertyName} (ended : m.current.instr? = none)
      (waits : m.outer = w :: outer) (object : w.level.source? = some note.mark.id)
      (known : (Bound.Expr.object note properties).node ∈ nodes) (inside : p ∈ properties)
      (written : p.key = .known k) (key : x.value.key? = some k)
      (source : x.source = some p.value.mark.id)

structure ValuesTyped (nodes : List Bound.Node) (m : Machine) : Prop where
  here : (∀ x ∈ m.current.stack, x.Typed nodes) ∨
    ∃ x rest, m.current.stack = x :: rest ∧ m.Takes nodes x ∧ ∀ y ∈ rest, y.Typed nodes
  waiting : ∀ w ∈ m.outer, ∀ x ∈ w.level.stack, x.Typed nodes

/-- What all runs of a program keep to: what expressions leave has their types, at every point of the
run and at its end, and the run fails only at a division by zero or at a limit. -/
structure KeepsTypes (nodes : List Bound.Node) (setup : Setup) (m : Machine) : Prop where
  reached {fuel : Nat} {n : Machine} (running : m.run setup fuel = .running n) : n.ValuesTyped nodes
  ended {fuel : Nat} {n : Machine} (done : m.run setup fuel = .ended n) :
    ∀ x ∈ n.current.stack, x.Typed nodes
  failed {fuel : Nat} {n : Machine} {e : RunError} (stopped : m.run setup fuel = .failed n e) :
    e.fault.Excused

variable {nodes : List Bound.Node} {m : Machine} {types : TypedNames} {scope : Nat}
  {outer : List Waiting} {p last : View} {nested : Bool}

omit m in
theorem waitsTyped (waits : Waits nodes types scope outer last nested) :
    ∀ w ∈ outer, ∀ x ∈ w.level.stack, x.Typed nodes := by
  induction waits with
  | program => nofun
  | object _ makes _ _ ih =>
    obtain ⟨values, holds, -⟩ := makes.goes
    exact List.forall_mem_cons.mpr ⟨cellsTyped holds, ih⟩

theorem Sees.endsCued {cue : Cue} {values : List Bound.Expr} {x : Cell}
    (sees : m.Sees nodes ⟨types, some cue, values, nested⟩ ⟨types, some cue, values, nested⟩)
    (ended : m.current.instr? = none) (source : x.source = some cue.id)
    (admits : cue.Admits x.value) : m.Takes nodes x := by
  -- Behind the end of its code a level leaves no name.
  have waits : Waits nodes types m.current.scope m.outer ⟨types, some cue, values, nested⟩ nested :=
    sees.waits
  generalize same : m.outer = outer at waits
  generalize view : View.mk types (some cue) values nested = last at waits
  cases waits with
  | program used =>
    rw [← view] at used
    cases used
  | @object w _ note properties _ _ _ _ makes seeks _ =>
    generalize w.pending = pending at seeks
    cases seeks with
    | @key _ _ _ _ done others p all =>
      obtain ⟨key, value, type⟩ := p
      cases key with
      | known k =>
        cases view
        exact .key ended same makes.source makes.known (p := .mk (.known k) value type)
          (by rw [all]; simp) rfl admits source
      | computed e => cases view
    | value => cases view

theorem Sees.takes {cue : Cue} {values : List Bound.Expr} {x : Cell}
    (sees : m.Sees nodes ⟨types, some cue, values, nested⟩ last)
    (stands : (views nodes).closed.Stands m.current.routine.code m.current.ip
      ⟨types, some cue, values, nested⟩ last)
    (source : x.source = some cue.id) (admits : cue.Admits x.value) : m.Takes nodes x := by
  cases found : m.current.instr? with
  | none =>
    cases stands.ended found
    exact sees.endsCued found source admits
  | some i =>
    cases stands.follows found with
    | straight q effect next =>
      cases effect.1 with
      | load op _ leaves _ =>
        exact .name found (.inl op) admits (source.trans leaves.source.symm)
      | store op _ leaves _ _ =>
        exact .name found (.inr (.inl op)) admits (source.trans leaves.source.symm)
      | define op same _ => exact .name found (.inr (.inr op)) admits (source.trans same.symm)
      | member op leaves _ => exact .member found op admits (source.trans leaves.source.symm)
    | jump q target turns _ _ _ _ =>
      cases turns.1 with
      | always op used => cases used
    | exit op exits => cases exits.1

theorem WellTyped.valuesTyped (typed : m.WellTyped nodes) : m.ValuesTyped nodes := by
  obtain ⟨⟨types, cue, values, nested⟩, last, sees, stands⟩ := typed
  refine ⟨?_, waitsTyped sees.waits⟩
  cases cue with
  | none => exact .inl (cellsTyped sees.stack.held)
  | some cue =>
    obtain ⟨x, rest, whole, source, admits, holds⟩ := sees.stack.cued
    exact .inr ⟨x, rest, whole, sees.takes stands source admits, cellsTyped holds⟩

theorem WellTyped.keepsTypes (typed : m.WellTyped nodes) (setup : Setup) :
    m.KeepsTypes nodes setup := by
  have runs := typed.run setup
  refine ⟨fun {fuel n} running => ?_, fun {fuel n} done => ?_, fun {fuel n e} stopped => ?_⟩
  · have outcome := runs fuel
    rw [running] at outcome
    cases outcome with
    | running typed => exact typed.valuesTyped
  · have outcome := runs fuel
    rw [done] at outcome
    cases outcome with
    | ended typed => exact typed
  · have outcome := runs fuel
    rw [stopped] at outcome
    cases outcome with
    | failed _ excused => exact excused

end Machine

theorem builtinsTyped : ∃ chain, Machine.new.scopes.Holds ScopeHeap.global chain ∧
    chain.Typed SymbolTable.initial.types := by
  have defined (builtins : List Intrinsic) (h : ScopeHeap) (t : SymbolTable)
      (held : ∃ chain, h.Holds ScopeHeap.global chain ∧ chain.Typed t.types) :
      ∃ chain, (builtins.foldl (fun h i => h.define ScopeHeap.global i.name (.intrinsic i)) h).Holds
          ScopeHeap.global chain ∧
        chain.Typed (builtins.foldl (fun t i => (t.define i.name i.signature false true).2) t).types := by
    induction builtins generalizing h t with
    | nil => exact held
    | cons i rest ih =>
      obtain ⟨chain, holds, typed⟩ := held
      obtain ⟨inner, outer, whole⟩ := t.varsCons
      have types : t.types = inner.map VarSymbol.typed :: outer.map (·.map VarSymbol.typed) :=
        congrArg (List.map (List.map VarSymbol.typed)) whole
      refine ih _ _ ⟨_, holds.define, ?_⟩
      rw [SymbolTable.defineTypes types]
      rw [types] at typed
      exact typed.define (.intrinsic rfl)
  exact defined Intrinsic.all .new .new ⟨[[]], .outermost rfl, .cons (fun _ => .none) .nil⟩

/-- Programs without functions that the binder and the checker accept keep to the types that the
binder found, in any configuration, with and without folding. In what was parsed no two expressions
have the same number, so each value is that of one of them. -/
theorem functionFreeSound (program : Program) (free : stmtsFunctionFree program)
    (accepted : ((bind program).2 ++ Bound.check (bind program).1 : Diagnostics).hasErrors = false)
    (short : Short (Bound.generate (bind program).1).1) (folding : Bool) (setup : Setup) :
    (Machine.new.load (if folding then optimize (Bound.generate (bind program).1).1
      else (Bound.generate (bind program).1).1)).KeepsTypes
        (Bound.stmtNodes (bind program).1) setup ∧
      ∀ source, parseSource source = .ok program →
        ((Bound.stmtNodes (bind program).1).map (·.mark.id)).Nodup := by
  obtain ⟨cleanBound, cleanChecked⟩ := Diagnostics.cleanParts accepted
  obtain ⟨u, binds⟩ := cleanBinds cleanBound
  refine ⟨?_, fun source parsed => boundDistinct parsed binds⟩
  obtain ⟨last, used, outside, piece⟩ := programSeen binds free SymbolTable.initialDeclares
    cleanChecked (List.Subset.refl _) short
  have runs : (views (Bound.stmtNodes (bind program).1)).Runs (if folding
      then optimize (Bound.generate (bind program).1).1 else (Bound.generate (bind program).1).1)
      ⟨SymbolTable.initial.types, none, [], false⟩ last := by
    cases folding with
    | false => exact NestedFlow.runsOfPiece piece
    | true => exact (NestedFlow.runsOfPiece piece).optimized viewsFold
  refine Machine.WellTyped.keepsTypes ⟨_, last, ?_, (runs.piece viewsFold.jumpsOnly).stands⟩ setup
  exact ⟨rfl, builtinsTyped, .values .nil, .program used⟩

-- Savings with interest. A variable is declared again with another type, and members are read by
-- names that are written out.
def savings : String :=
  "let plan = \x7b years: 2, terms: \x7b rate: 0.5 \x7d \x7d;
  let mut sum: float = 1.0; let mut n = plan.years;
  while n \x7b let rate = plan[\"terms\"].rate; sum *= 1 + rate; n--; \x7d
  let n = sum > 2.0; n;"

theorem savingsSound : ∃ program, parseSource savings = .ok program ∧
    (Machine.new.load (optimize (Bound.generate (bind program).1).1)).KeepsTypes
      (Bound.stmtNodes (bind program).1) ⟨.standard, [], none, true⟩ := by
  have accepted : (match parseSource savings with
      | .ok program => stmtsFunctionFree program &&
          !((bind program).2 ++ Bound.check (bind program).1 : Diagnostics).hasErrors &&
          decide (Short (Bound.generate (bind program).1).1)
      | .error _ => false) = true := by decide +kernel
  cases parsed : parseSource savings with
  | ok program =>
    rw [parsed] at accepted
    simp only [Bool.and_eq_true, Bool.not_eq_true', decide_eq_true_eq] at accepted
    obtain ⟨⟨free, clean⟩, short⟩ := accepted
    exact ⟨program, rfl, (functionFreeSound program free clean short true _).1⟩
  | error e =>
    rw [parsed] at accepted
    cases accepted

theorem unsoundBehindBranch : ∃ program, parseSource (skippedSource (2 ^ 31 - 2)) = .ok program ∧
    stmtsFunctionFree program ∧
    ((bind program).2 ++ Bound.check (bind program).1 : Diagnostics).hasErrors = false ∧
    ¬ (Machine.new.load (Bound.generate (bind program).1).1).KeepsTypes
      (Bound.stmtNodes (bind program).1) (vast program.spans) := by
  obtain ⟨marks, p, many, parsed, skipped⟩ := skippedParses (2 ^ 31 - 2)
  obtain ⟨clean, -⟩ := skippedAccepted skipped
  obtain ⟨last, e, failed, fault⟩ := skippedFails skipped many p.spans
  refine ⟨p, parsed, skippedFree skipped, by rw [clean]; rfl, fun keeps => ?_⟩
  have excused := keeps.failed failed
  rw [fault] at excused
  cases excused

end Quill
