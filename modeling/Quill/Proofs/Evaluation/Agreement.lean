import Quill.Compile
import Quill.Proofs.Binding.Clean
import Quill.Proofs.Evaluation.Control
import Quill.Proofs.Offsets.Skipped
import Quill.Proofs.Typing.Generated

/-! Code of structured programs runs as direct evaluation of their syntax trees says. -/
namespace Quill

namespace Operators

theorem binaryOpcode {op : BinaryOp} {left right : Ty} {row : BinaryRow}
    (found : resolveBinary op left right = some row) : row.opcode = op.opcode := by
  have all : ∀ row ∈ binaryTable, row.opcode = row.op.opcode := by decide
  have same := List.find?_some found
  rw [Bool.and_assoc, Bool.and_eq_true, decide_eq_true_eq] at same
  rw [all row (List.mem_of_find?_eq_some found), same.1]

theorem unaryOpcode {op : UnaryOp} {operand : Ty} {row : UnaryRow}
    (found : resolveUnary op operand = some row) : row.opcode = op.opcode := by
  have all : ∀ row ∈ unaryTable, row.opcode = row.op.opcode := by decide
  have same := List.find?_some found
  rw [Bool.and_eq_true, decide_eq_true_eq] at same
  rw [all row (List.mem_of_find?_eq_some found), same.1]

theorem stepOpcode {op : StepOp} {operand : Ty} {row : StepRow}
    (found : resolveStep op operand = some row) : row.opcode = op.opcode := by
  have all : ∀ row ∈ stepTable, row.opcode = row.op.opcode := by decide
  have same := List.find?_some found
  rw [Bool.and_eq_true, decide_eq_true_eq] at same
  rw [all row (List.mem_of_find?_eq_some found), same.1]

end Operators

namespace Performs

variable {setup : Setup} {rounds : Nat} {expected : Option Ty} {t u : SymbolTable} {p : Spot}

theorem literal (mark : Mark) (value : Literal) :
    Performs setup rounds (Bound.literalCode mark value) p (pure value.value) fun v =>
      p.push v (some mark.id) := by
  cases value with
  | none => exact pushNone mark
  | float x => exact constant mark (by rw [Value.ofOperand?, Number.ofBitsToBits]; rfl)
  | _ => exact constant mark rfl

theorem expr {expected : Option Ty} {t u : SymbolTable} {p : Spot} : {e : Expr} →
    {b : Bound.Expr} → ExprBinds expected t e b u → e.structured → Short b.code →
      Performs setup rounds b.code p e.eval fun v => p.push v (some e.origin.id)
  | _, _, .literal mark value, _, _ => literal mark value
  | _, _, .ident mark _, _, _ => load mark _
  | _, _, .binary mark lefts rights resolved, structured, short => by
    rw [Expr.structured, Bool.and_eq_true] at structured
    rw [Bound.Expr.code] at short ⊢
    obtain ⟨⟨shortLeft, shortRight⟩, -⟩ := short.append.imp_left Short.append
    rw [List.append_assoc, Expr.eval, ← Operators.binaryOpcode resolved]
    exact (expr lefts structured.1 shortLeft).append fun _ =>
      (expr rights structured.2 shortRight).append fun _ =>
        binary mark _ (Operators.resolvedBinary resolved)
  | _, _, .unary mark operands resolved, structured, short => by
    rw [Bound.Expr.code] at short ⊢
    rw [Expr.eval, ← Operators.unaryOpcode resolved]
    exact (expr operands structured short.append.1).append fun _ =>
      unary mark _ (Operators.resolvedUnary resolved)
  | _, _, .step mark _ _ _ resolved, _, _ => by
    rw [Bound.Expr.code, Bound.stepCode, List.append_assoc, List.append_assoc, Expr.eval,
      ← Operators.stepOpcode resolved]
    refine (loadTwice mark _).append fun old => ?_
    refine (unary mark mark (Operators.resolvedStep resolved)).append fun new => ?_
    exact (store mark _).append fun _ => (pop mark).after (nil rfl)
  | _, _, .assign mark _ _ values, structured, short => by
    rw [Bound.Expr.code] at short ⊢
    rw [Expr.eval]
    exact (expr values structured short.append.1).append fun new =>
      (store mark _).gives (f := fun _ => new) fun _ => rfl
  | _, _, .update mark _ _ values resolved, structured, short => by
    rw [Bound.Expr.code] at short ⊢
    have shortValue := short.append.1.append.1.append.2
    rw [List.append_assoc, List.append_assoc, Expr.eval, ← Operators.binaryOpcode resolved]
    refine (load mark _).append fun _ => (expr values structured shortValue).append fun _ => ?_
    exact (binary mark _ (Operators.resolvedBinary resolved)).append fun new =>
      (store mark _).gives (f := fun _ => new) fun _ => rfl
  | _, _, .grouping _ inners, structured, short => by
    rw [Bound.Expr.code] at short ⊢
    rw [Expr.eval, Expr.origin]
    exact expr inners structured short

-- Loops are the one case that does not follow from the parts: `loop` has the induction on the
-- rounds.
mutual

theorem stmt {t u : SymbolTable} {p : Spot} : {s : Stmt} → {b : Bound.Stmt} →
    StmtBinds t s b u → s.structured → Short b.code →
      Performs setup rounds b.code p (s.exec rounds) fun _ => p
  | _, _, .uninitialized mark name _ _, _, _ => by
    rw [Bound.Stmt.code, Stmt.exec]
    exact (pushNone mark).after (define mark name)
  | _, _, .initialized mark name _ _ inits, structured, short => by
    rw [Bound.Stmt.code] at short ⊢
    rw [Stmt.exec]
    exact (expr inits structured short.append.1).append fun _ => define mark name
  | _, _, .branch mark conditions thens, structured, short => by
    rw [Stmt.structured, Bool.and_eq_true] at structured
    rw [Bound.Stmt.code] at short ⊢
    obtain ⟨shortCondition, shortRest⟩ := short.append
    rw [Stmt.exec]
    exact branch (expr conditions structured.1 shortCondition)
      (block thens structured.2 shortRest.head.2) short.bounds.1
  | _, _, .choice mark conditions thens elses, structured, short => by
    rw [Stmt.structured, Bool.and_eq_true, Bool.and_eq_true] at structured
    rw [Bound.Stmt.code] at short ⊢
    obtain ⟨shortFirst, shortSecond⟩ := short.append
    obtain ⟨shortCondition, shortBranch⟩ := shortFirst.append
    rw [Stmt.exec]
    exact choice (expr conditions structured.1.1 shortCondition)
      (block thens structured.1.2 shortBranch.head.2) (stmt elses structured.2 shortSecond.head.2)
      short.bounds.1
  | _, _, .loop mark conditions bodies, structured, short => by
    rw [Stmt.structured, Bool.and_eq_true] at structured
    rw [Bound.Stmt.code] at short ⊢
    obtain ⟨shortCondition, shortBody⟩ := short.append.1.append
    rw [Stmt.exec]
    exact loop (expr conditions structured.1 shortCondition)
      (block bodies structured.2 shortBody.head.2) short.bounds.1
  | _, _, .block bodies, structured, short => by
    rw [Bound.Stmt.code] at short ⊢
    rw [Stmt.exec]
    exact block bodies structured short
  | _, _, .expr mark values, structured, short => by
    rw [Bound.Stmt.code] at short ⊢
    rw [Stmt.exec]
    exact (expr values structured short.append.1).append fun _ => pop mark

theorem block {t u : SymbolTable} {p : Spot} : {s : Block} → {b : Bound.Block} →
    BlockBinds t s b u → s.structured → Short b.code →
      Performs setup rounds b.code p (s.exec rounds) fun _ => p
  | _, _, .mk mark bodies, structured, short => by
    rw [Bound.Block.code] at short ⊢
    rw [Block.exec]
    exact opened fun inner => (beginScope mark).append fun _ =>
      (stmts bodies structured short.append.1.head.2).append fun _ => endScope mark inner

theorem stmts {t u : SymbolTable} {p : Spot} : {body : List Stmt} → {b : List Bound.Stmt} →
    StmtsBind t body b u → stmtsStructured body → Short (Bound.stmtsCode b) →
      Performs setup rounds (Bound.stmtsCode b) p (stmtsExec rounds body) fun _ => p
  | _, _, .nil, _, _ => by
    rw [Bound.stmtsCode, stmtsExec]
    exact nil rfl
  | _, _, .cons first others, structured, short => by
    rw [stmtsStructured, Bool.and_eq_true] at structured
    rw [Bound.stmtsCode] at short ⊢
    rw [stmtsExec]
    exact (stmt first structured.1 short.append.1).append fun _ =>
      stmts others structured.2 short.append.2

end

theorem program {t u : SymbolTable} {d : Nat} {program : Program} {b : Bound.Program}
    (binds : StmtsBind t program b u) (structured : stmtsStructured program)
    (short : Short (Bound.programCode b)) : ∃ piece source,
      Bound.programCode b = piece ++ [.mk .exit .null none] ∧
        Performs setup rounds piece ⟨[], d⟩ (Program.eval rounds program) fun result =>
          ⟨result.toList.map (⟨·, source⟩), d⟩ := by
  induction program using Program.eval.induct generalizing t b with
  | case1 =>
    cases binds
    exact ⟨[], none, rfl, nil rfl⟩
  | case2 mark value =>
    cases binds with
    | cons first others =>
      cases others
      cases first with
      | expr mark values =>
        rw [stmtsStructured, Bool.and_eq_true] at structured
        rw [Bound.programCode] at short ⊢
        refine ⟨_, some value.origin.id, rfl, ?_⟩
        rw [Program.eval]
        exact (expr values structured.1 short.append.1).gives fun _ => rfl
  | case3 s rest other ih =>
    cases binds with
    | @cons _ _ _ _ s' _ rest' first others =>
      have other' : ∀ mark value, s' = .expr mark value → rest' = [] → False := by
        rintro mark value rfl rfl
        cases others
        cases first
        exact other _ _ rfl rfl
      rw [stmtsStructured, Bool.and_eq_true] at structured
      rw [Bound.programCode] at short ⊢
      · obtain ⟨piece, source, same, performs⟩ := ih others structured.2 short.append.2
        refine ⟨s'.code ++ piece, source, by rw [same, List.append_assoc], ?_⟩
        rw [Program.eval]
        · exact (stmt first structured.1 short.append.1).append fun _ => performs
        · exact other
      · exact other'
      · exact other'

end Performs

theorem Machine.At.exits {setup : Setup} {code : Code} {below : List Cell} {m : Machine} {ip : Nat}
    {p : Spot} {chain : Chain} {source : Option Nat} (at_ : m.At setup code below ip p chain)
    (found : code[ip]? = some (.mk .exit .null source)) :
    m.Halts setup (.ended { m with steps := m.steps + 1 }) := by
  refine ⟨rfl, 1, ?_⟩
  rw [at_.one found]
  simp only [Machine.exec, Instr.opcode, Machine.endLevel, at_.outer]

/-- A run that is over and an evaluation that is: with the same value and global variables, or for the
same fault. -/
inductive Concludes : Transition → EStateM.Result Halt Chain (Option Value) → Prop where
  | ended {m : Machine} {chain : Chain} (globals : m.scopes.globals = chain.globals) :
      Concludes (.ended m) (.ok m.result? chain)
  | failed {m : Machine} {fault : Fault} {node : Nat} {chain : Chain}
      (globals : m.scopes.globals = chain.globals) :
      Concludes (.failed m ⟨fault, [], some node⟩) (.error (.failed fault node) chain)

def Exhausts {α : Type} : EStateM.Result Halt Chain α → Prop
  | .error .exhausted _ => True
  | .error (.failed ..) _ | .ok .. => False

/-- A run concludes as an evaluation does, if its loops may go round often enough, and both go on
forever or neither does. -/
structure Machine.Evaluates (setup : Setup) (m : Machine)
    (eval : (rounds : Nat) → EStateM.Result Halt Chain (Option Value)) : Prop where
  forth (t : Transition) : m.Halts setup t → ∃ rounds, Concludes t (eval rounds)
  back (rounds : Nat) : ¬ Exhausts (eval rounds) → ∃ t, m.Halts setup t ∧ Concludes t (eval rounds)
  diverges : (∀ t, ¬ m.Halts setup t) ↔ ∀ rounds, Exhausts (eval rounds)

theorem Concludes.settled {t : Transition} {r : EStateM.Result Halt Chain (Option Value)}
    (concludes : Concludes t r) : ¬ Exhausts r := by
  cases concludes <;> exact id

theorem Machine.evaluates {setup : Setup} {m : Machine}
    {eval : (rounds : Nat) → EStateM.Result Halt Chain (Option Value)}
    (concludes : ∀ rounds, ¬ Exhausts (eval rounds) →
      ∃ t, m.Halts setup t ∧ Concludes t (eval rounds))
    (goesOn : ∀ rounds, Exhausts (eval rounds) → ∃ next, m.run setup rounds = .running next) :
    m.Evaluates setup eval := by
  -- Every bound that is too small is so because the run goes on for as long.
  have enough (t : Transition) (halts : m.Halts setup t) : ∃ rounds, ¬ Exhausts (eval rounds) := by
    obtain ⟨finished, fuel, ended⟩ := halts
    refine ⟨fuel, fun exhausts => ?_⟩
    obtain ⟨next, running⟩ := goesOn fuel exhausts
    rw [← ended, running] at finished
    cases finished
  have forth (t : Transition) (halts : m.Halts setup t) : ∃ rounds, Concludes t (eval rounds) := by
    obtain ⟨rounds, settled⟩ := enough t halts
    obtain ⟨t', halts', same⟩ := concludes rounds settled
    exact ⟨rounds, Machine.haltsOnce halts' halts ▸ same⟩
  refine ⟨forth, concludes, fun never rounds => ?_, fun exhausts t halts => ?_⟩
  · by_contra settled
    obtain ⟨t, halts, _⟩ := concludes rounds settled
    exact never t halts
  · obtain ⟨rounds, settled⟩ := enough t halts
    exact settled (exhausts rounds)

/-- The code of a structured program that is accepted runs in the global scope as its direct
evaluation says, if no limit is in the way: that of steps is off, that of the stack leaves a cell to
each instruction, and no jump is too long. -/
theorem structuredEvaluates (program : Program) (structured : stmtsStructured program)
    (accepted : ((bind program).2 ++ Bound.check (bind program).1 : Diagnostics).hasErrors = false)
    (short : Short (Bound.generate (bind program).1).1) (setup : Setup)
    (unlimited : setup.limits.maxSteps = none)
    (room : (Bound.generate (bind program).1).1.length ≤ setup.limits.maxStackSize) (m : Machine)
    (vars : List (String × Value))
    (globals : m.scopes.frames[ScopeHeap.global]? = some ⟨vars, none⟩) :
    (m.load (Bound.generate (bind program).1).1).Evaluates setup fun rounds =>
      Program.eval rounds program [vars] := by
  obtain ⟨u, binds⟩ := cleanBinds (Diagnostics.cleanParts accepted).1
  have meets (rounds : Nat) : Meets setup rounds (m.load (Bound.generate (bind program).1).1)
      (fun result chain next => ∃ last, next.Halts setup (.ended last) ∧ last.result? = result ∧
        last.scopes.globals = chain.globals) (Program.eval rounds program [vars]) := by
    obtain ⟨piece, source, same, performs⟩ := Performs.program (d := 1) binds structured short
    have code : Code.has (Bound.generate (bind program).1).1 0 (piece ++ [.mk .exit .null none]) :=
      ⟨[], [], by rw [← same, List.append_nil]; rfl, rfl⟩
    have start : (m.load (Bound.generate (bind program).1).1).At setup
        (Bound.generate (bind program).1).1 [] 0 ⟨[], 1⟩ [vars] :=
      { runs := rfl, here := rfl, stack := rfl, depth := rfl, holds := .outermost globals
        frames := rfl, outer := rfl, low := Nat.le_refl _, room := room, unlimited := unlimited }
    refine (performs _ [] _ 0 _ code.first start).onward fun result chain next at_ => ?_
    refine ⟨0, next, rfl, _, at_.exits code.second.instr, ?_, at_.holds.globals⟩
    have stack := at_.stack
    cases result with
    | none => simp only [Machine.result?, Level.top?, stack]; rfl
    | some v => simp only [Machine.result?, Level.top?, stack]; rfl
  refine Machine.evaluates (fun rounds settled => ?_) fun rounds exhausts => ?_
  · have met := meets rounds
    generalize Program.eval rounds program [vars] = r at met settled ⊢
    cases met with
    | done runs ends =>
      obtain ⟨last, ⟨-, fuel, ended⟩, rfl, same⟩ := ends
      exact ⟨_, ⟨rfl, _, (Machine.runGoesOn runs fuel).trans ended⟩, .ended same⟩
    | failed runs same => exact ⟨_, ⟨rfl, _, runs⟩, .failed same⟩
    | exhausted _ => exact (settled trivial).elim
  · have met := meets rounds
    generalize Program.eval rounds program [vars] = r at met exhausts
    cases met with
    | done _ _ => exact exhausts.elim
    | failed _ _ => exact exhausts.elim
    | exhausted runs => exact ⟨_, runs⟩

theorem newGlobals : Machine.new.scopes.frames[ScopeHeap.global]? =
    some ⟨Intrinsic.all.map fun i => (i.name, .intrinsic i), none⟩ := rfl

-- Adds the odd numbers below four, and one for each even number.
def oddSum : String :=
  "let mut n = 3; let mut sum = 0.0;
  while n \x7b if n % 2 == 1 \x7b sum += n; \x7d else \x7b sum++; \x7d n--; \x7d
  sum;"

theorem oddSumEvaluates : ∃ program, parseSource oddSum = .ok program ∧
    (Machine.new.load (Bound.generate (bind program).1).1).Evaluates ⟨.standard, [], none, true⟩
      fun rounds => Program.eval rounds program [Intrinsic.all.map fun i => (i.name, .intrinsic i)] := by
  have accepted : (match parseSource oddSum with
      | .ok program => stmtsStructured program &&
          !((bind program).2 ++ Bound.check (bind program).1 : Diagnostics).hasErrors &&
          decide (Short (Bound.generate (bind program).1).1) &&
          decide ((Bound.generate (bind program).1).1.length ≤ Limits.standard.maxStackSize)
      | .error _ => false) = true := by decide +kernel
  cases parsed : parseSource oddSum with
  | ok program =>
    rw [parsed] at accepted
    simp only [Bool.and_eq_true, Bool.not_eq_true', decide_eq_true_eq] at accepted
    obtain ⟨⟨⟨structured, clean⟩, short⟩, room⟩ := accepted
    exact ⟨program, rfl, structuredEvaluates program structured clean short
      ⟨.standard, [], none, true⟩ rfl room Machine.new _ newGlobals⟩
  | error e =>
    rw [parsed] at accepted
    cases accepted

theorem branchNotSkipped : ∃ program, parseSource (skippedSource (2 ^ 31 - 2)) = .ok program ∧
    stmtsStructured program ∧
    ((bind program).2 ++ Bound.check (bind program).1 : Diagnostics).hasErrors = false ∧
    (vast program.spans).limits.maxSteps = none ∧
    (Bound.generate (bind program).1).1.length ≤ (vast program.spans).limits.maxStackSize ∧
    ¬ (Machine.new.load (Bound.generate (bind program).1).1).Evaluates (vast program.spans)
      fun rounds => Program.eval rounds program [Intrinsic.all.map fun i => (i.name, .intrinsic i)] := by
  obtain ⟨marks, p, many, parsed, skipped⟩ := skippedParses (2 ^ 31 - 2)
  obtain ⟨clean, -⟩ := skippedAccepted skipped
  obtain ⟨last, e, failed, -⟩ := skippedFails skipped many p.spans
  refine ⟨p, parsed, skippedStructured skipped, by rw [clean]; rfl, rfl, skippedRoom skipped many _,
    fun evaluates => ?_⟩
  -- The evaluation skips the branch, and with it the run would end without a fault.
  have evaluated := skippedEval skipped 0 [Intrinsic.all.map fun i => (i.name, .intrinsic i)]
  obtain ⟨t, halts, concludes⟩ := evaluates.back 0 (by rw [evaluated]; exact id)
  have same := Machine.haltsOnce halts ⟨rfl, 10, failed⟩
  rw [evaluated, same] at concludes
  cases concludes

end Quill
