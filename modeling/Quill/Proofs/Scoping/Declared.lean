import Quill.Proofs.Evaluation.Agreement
import Quill.Proofs.Offsets.Skipped
import Quill.Proofs.Parsing.Parsed
import Quill.Proofs.Scoping.Generated
import Quill.Proofs.Scoping.Steps

/-! Runs of compiled programs. Every name that the binder resolved is declared in the scopes around
where it is evaluated, in whichever order code runs in the end. -/
namespace Quill

namespace Bound

theorem programPiece {t u : SymbolTable} {p : Quill.Program} {p' : Program}
    (binds : StmtsBind t p p' u) (braced : stmtsBraced p) (short : Short (programCode p')) :
    scenes.closed.Piece (programCode p') ⟨t.names, []⟩ ⟨u.names, []⟩ := by
  -- The end of a program wants nothing but that no name waits to be used.
  induction p' using programCode.induct generalizing t p with
  | case1 =>
    cases binds
    rw [programCode]
    exact .exit rfl rfl
  | case2 m value =>
    cases binds with
    | cons first others =>
      cases others
      cases first with
      | expr m values =>
        rw [programCode] at short ⊢
        rw [exprNames values]
        exact (exprPiece values braced.1 short.append.1).append (.exit rfl rfl)
  | case3 s rest other ih =>
    cases binds with
    | cons first others =>
      rw [programCode] at short ⊢
      · obtain ⟨shortFirst, shortRest⟩ := short.append
        exact (stmtPiece first braced.1 shortFirst).append (ih others braced.2 shortRest)
      · exact other
      · exact other

end Bound

theorem notRefused {p : Prop} [Decidable p] {e : ε} {x : Except ε α} {a : α}
    (accepted : (if p then .error e else x) = .ok a) : ¬ p := by
  intro refused
  rw [if_pos refused] at accepted
  cases accepted

theorem compiledParses {source : String} {folding : Bool} {c : Compiled}
    (compiled : compile source folding = .ok c) : parseSource source = .ok c.program ∧
      ((bind c.program).2 ++ Bound.check (bind c.program).1).hasErrors = false := by
  unfold compile at compiled
  cases parsed : parseSource source with
  | error e =>
    rw [parsed] at compiled
    cases compiled
  | ok program =>
    rw [parsed] at compiled
    have clean := notRefused compiled
    cases acceptedCases (acceptedCases compiled)
    exact ⟨rfl, Bool.eq_false_iff.mpr clean⟩

theorem compiledBinds {source : String} {folding : Bool} {c : Compiled}
    (compiled : compile source folding = .ok c) :
    stmtsBraced c.program ∧ ∃ u, StmtsBind .initial c.program (bind c.program).1 u := by
  obtain ⟨parsed, clean⟩ := compiledParses compiled
  obtain ⟨tokens, -, read⟩ := parsedSource parsed
  exact ⟨parsedBraced read, cleanBinds (Diagnostics.cleanParts clean).1⟩

theorem compiledRuns {source : String} {folding : Bool} {c : Compiled}
    (compiled : compile source folding = .ok c)
    (short : Short (Bound.programCode (bind c.program).1)) :
    RunsIn SymbolTable.initial.names c.code := by
  obtain ⟨braced, u, binds⟩ := compiledBinds compiled
  have runs := runsIn (Bound.programPiece binds braced short)
  rw [compiledCode compiled]
  cases folding with
  | false => exact runs
  | true => exact runs.optimized

theorem globalShows : Machine.new.scopes.Shows ScopeHeap.global SymbolTable.initial.names := by
  refine .outermost newGlobals rfl ?_
  decide

theorem newScoped : Machine.new.scopes.Scoped := by
  -- Built-in functions have no code.
  intro i f found x inside
  cases i with
  | succ i => cases found
  | zero =>
    cases newGlobals.symm.trans found
    obtain ⟨builtin, -, rfl⟩ := List.mem_map.mp inside
    exact plainScoped trivial

namespace Machine

def Declared (m : Machine) : Prop :=
  ∀ i, m.current.instr? = some i → i.opcode = .load ∨ i.opcode = .store →
    ∃ name source rest, m.current.stack = ⟨.str name, source⟩ :: rest ∧
      ∃ scope, m.scopes.declaring? name m.current.scope = some scope

theorem Scoped.declared {m : Machine} (known : m.Scoped) : m.Declared := by
  intro i found op
  obtain ⟨p, ⟨here, last, stands⟩, matched⟩ := known.here
  cases stands.follows found with
  | straight q effect next =>
    cases effect.1 with
    | plain plain => rcases op with op | op <;> rw [op] at plain <;> cases plain
    | use _ declared =>
      obtain ⟨source, rest, stack, -⟩ := matched.named
      exact ⟨_, source, rest, stack, here.declaring declared⟩
    | name other _ | define other _ _ | function other _ _ | beginScope other | endScope other _ =>
      rcases op with op | op <;> cases op.symm.trans other
  | jump q target jumps given reached there next =>
    have jump := jumps.2
    rcases op with op | op <;> rw [op] at jump <;> cases jump
  | exit returned _ => rcases op with op | op <;> cases returned.symm.trans op

/-- What all runs of a program keep to whose names are resolved: no variable is read or assigned, on
any level, unless its name is declared. -/
structure KnowsNames (setup : Setup) (m : Machine) : Prop where
  declared {fuel : Nat} {n : Machine} (reached : m.run setup fuel = .running n) : n.Declared
  fault {fuel : Nat} {n : Machine} {e : RunError} (failed : m.run setup fuel = .failed n e)
    (name : String) : e.fault ≠ .undefinedVariable name

end Machine

theorem compiledScoped {source : String} {folding : Bool} {c : Compiled}
    (compiled : compile source folding = .ok c)
    (short : Short (Bound.programCode (bind c.program).1)) :
    (Machine.new.load c.code).Scoped := by
  obtain ⟨last, runs⟩ := compiledRuns compiled short
  exact
    { heap := newScoped
      outer := nofun
      frames := nofun
      here := ⟨⟨_, []⟩, ⟨globalShows, last, (runs.piece scenesFold.jumpsOnly).stands⟩, .cells nofun⟩ }

/-- Runs of compiled programs know all names that they use, in any configuration, if no instruction
sequence is too long for a jump. -/
theorem compiledKnowsNames {source : String} {folding : Bool} {c : Compiled}
    (compiled : compile source folding = .ok c)
    (short : Short (Bound.programCode (bind c.program).1)) (setup : Setup) :
    (Machine.new.load c.code).KnowsNames setup := by
  have start := compiledScoped compiled short
  refine ⟨fun {fuel n} reached => ?_, fun {fuel n e} failed name undefined => ?_⟩
  · have known := start.run setup fuel
    rw [reached] at known
    cases known with
    | running known => exact known.declared
  · have known := start.run setup fuel
    rw [failed] at known
    cases known with
    | failed _ other => exact other (by rw [undefined]; trivial)

-- A counter that keeps its variable in a scope which is left before it is called.
def counting : String :=
  "fn counter(start, step = start) { let mut n = start; return fn () { n += step; return n; }; }
  let next = counter(2);
  { let n = next(); let point = { x: n, y: next() }; point.x; }
  next();"

theorem countingKnowsNames : ∃ c, compile counting true = .ok c ∧
    (Machine.new.load c.code).KnowsNames ⟨.standard, c.spans, none, true⟩ := by
  have accepted : (match compile counting true with
      | .ok c => decide (Short (Bound.programCode (bind c.program).1))
      | .error _ => false) = true := by decide +kernel
  cases compiled : compile counting true with
  | ok c =>
    rw [compiled] at accepted
    exact ⟨c, rfl, compiledKnowsNames compiled (of_decide_eq_true accepted) _⟩
  | error e =>
    rw [compiled] at accepted
    cases accepted

theorem unknownBehindBranch : ∃ c, compile (skippedSource (2 ^ 31 - 2)) false = .ok c ∧
    ¬ (Machine.new.load c.code).KnowsNames (vast c.spans) := by
  obtain ⟨marks, p, many, parsed, skipped⟩ := skippedParses (2 ^ 31 - 2)
  obtain ⟨clean, accepted⟩ := skippedAccepted skipped
  obtain ⟨last, e, failed, fault⟩ := skippedFails skipped many p.spans
  exact ⟨_, compiledClean parsed clean accepted, fun knows => knows.fault failed "y" fault⟩

end Quill
