import Quill.Proofs.Arguments.Filling

/-! Instructions with malformed operands are reported and skipped. The level that they run on is then
as it was, but for its place in the code and its peak of calls. A call or an object looks at its
entries one by one, though: those in front of the first malformed one are evaluated before that is
reported, and what they do stays. -/
namespace Quill

def Operand.isArgument : Operand → Bool
  | .tuple _ (.code _) => true
  | _ => false

def Operand.isProperty : Operand → Bool
  | .tuple (.code _) (.code _) => true
  | _ => false

def argumentCodes (slot : Nat) : List Operand → List (Code × Nat)
  | .tuple _ (.code code) :: rest => (code, slot) :: argumentCodes (slot + 1) rest
  | _ => []

def propertyCodes (index : Nat) : List Operand → List (Code × Nat)
  | .tuple (.code key) (.code value) :: rest =>
    (key, 2 * index) :: (value, 2 * index + 1) :: propertyCodes (index + 1) rest
  | _ => []

def Operand.entries : Operand → List Operand
  | .list items => items
  | _ => []

def Operand.expectsList? (form : Operand → Bool) (entry whole : String) : Operand → Option String
  | .list items => if items.all form then none else some entry
  | _ => some whole

namespace Level

def expectsOffset? (l : Level) (operand : Operand) : Option String :=
  match operand.offset? with
  | none => some "a jump offset"
  | some offset =>
    match jumpTarget? l.ip offset l.routine.code.length with
    | none => some "an in-range jump offset"
    | some _ => none

def expectsFunction? (l : Level) (operand : Operand) : Option String :=
  match closureOf l 0 operand with
  | .ok _ => none
  | .error expected => some expected

end Level

namespace Instr

def expects? (l : Level) (i : Instr) : Option String :=
  match i.opcode with
  | .push => if (Value.ofOperand? i.operand).isSome then none else some "a constant"
  | .pushObject => i.operand.expectsList? Operand.isProperty "(key, value)" "a property list"
  | .call => i.operand.expectsList? Operand.isArgument "(name, argument)" "an argument list"
  | .proc => l.expectsFunction? i.operand
  | .jmp | .jz | .jnz => l.expectsOffset? i.operand
  | _ => none

def evaluated (i : Instr) : List (Code × Nat) :=
  match i.opcode with
  | .pushObject => propertyCodes 0 i.operand.entries
  | .call => argumentCodes 0 i.operand.entries
  | _ => []

end Instr

/-- What a malformed instruction comes to within some steps, with codes yet to be evaluated: each on
a level of its own, whose end leads back to the level of the instruction. -/
inductive Skips (setup : Setup) (op : Opcode) (expected : String) :
    Machine → List (Code × Nat) → Nat → Transition → Prop where
  | skipped {m : Machine} {fuel : Nat} :
      Skips setup op expected m [] fuel ((m.skip setup op expected).onward setup fuel)
  | fails {m last : Machine} {e : RunError} {c : Code × Nat} {rest : List (Code × Nat)}
      {fuel : Nat} : Skips setup op expected m (c :: rest) fuel (.failed last e)
  | evaluating {m inner : Machine} {c : Code × Nat} {rest : List (Code × Nat)} {pending : Pending}
      {fuel : Nat} {t : Transition}
      (started : m.evaluate setup (m.current.inner c.1 c.2) m.current.scope pending =
        .running inner)
      (continues : Continues setup inner.outer inner fuel t) :
      Skips setup op expected m (c :: rest) fuel t
  | evaluated {m inner last : Machine} {c : Code × Nat} {rest : List (Code × Nat)}
      {pending : Pending} {steps fuel : Nat} {t : Transition}
      (started : m.evaluate setup (m.current.inner c.1 c.2) m.current.scope pending =
        .running inner)
      (evaluates : Evaluates setup inner.outer inner steps last)
      (more : Skips setup op expected
        { last with
          current := Machine.peakBelow m.current last.current, outer := m.outer } rest fuel t) :
      Skips setup op expected m (c :: rest) (steps + 1 + fuel) t

section
variable {setup : Setup} {op : Opcode} {expected : String} {m : Machine}
  {rest : List (Code × Nat)} {c : Code × Nat}

theorem Skips.first {pending : Pending} {fuel : Nat}
    (follows : ∀ value n fuel,
      Skips setup op expected n rest fuel ((n.resume setup value pending).onward setup fuel)) :
    Skips setup op expected m (c :: rest) fuel
      ((m.evaluate setup (m.current.inner c.1 c.2) m.current.scope pending).onward setup fuel) := by
  rcases Machine.evaluateCases setup m (m.current.inner c.1 c.2) m.current.scope pending with
    ⟨-, fails⟩ | ⟨inner, started, -⟩
  · rw [fails]
    exact .fails
  · rw [started]
    rcases Machine.evaluateRuns started fuel with
      continues | ⟨steps, more, last, rfl, evaluates, ends⟩
    · exact .evaluating started continues
    · refine .evaluated started evaluates ?_
      rw [Transition.onward, ends]
      exact follows _ _ more

end

theorem argumentCases (x : Operand) : (∃ name code, x = .tuple name (.code code)) ∨
    ∀ (setup : Setup) (m : Machine) (done : List Argument) (rest : List Operand) (slot : Nat),
      m.nextArgument setup done (x :: rest) = m.skip setup .call "(name, argument)" ∧
        argumentCodes slot (x :: rest) = [] := by
  cases x with
  | tuple name code =>
    cases code with
    | code c => exact .inl ⟨name, c, rfl⟩
    | _ => exact .inr fun _ _ _ _ _ => ⟨rfl, rfl⟩
  | _ => exact .inr fun _ _ _ _ _ => ⟨rfl, rfl⟩

theorem propertyCases (x : Operand) : (∃ key value, x = .tuple (.code key) (.code value)) ∨
    ∀ (setup : Setup) (m : Machine) (index : Nat) (done : List Entry) (rest : List Operand),
      m.nextProperty setup index done (x :: rest) = m.skip setup .pushObject "(key, value)" ∧
        propertyCodes index (x :: rest) = [] := by
  cases x with
  | tuple key value =>
    cases key with
    | code c =>
      cases value with
      | code d => exact .inl ⟨c, d, rfl⟩
      | _ => exact .inr fun _ _ _ _ _ => ⟨rfl, rfl⟩
    | _ => exact .inr fun _ _ _ _ _ => ⟨rfl, rfl⟩
  | _ => exact .inr fun _ _ _ _ _ => ⟨rfl, rfl⟩

theorem argumentsSkip {args : List Operand} (bad : ¬ args.all Operand.isArgument) (setup : Setup)
    (m : Machine) (done : List Argument) (fuel : Nat) :
    Skips setup .call "(name, argument)" m (argumentCodes done.length args) fuel
      ((m.nextArgument setup done args).onward setup fuel) := by
  induction args generalizing m done fuel with
  | nil => exact (bad rfl).elim
  | cons x rest ih =>
    rcases argumentCases x with ⟨name, code, rfl⟩ | malformed
    · refine Skips.first (c := (code, done.length)) fun value n fuel => ?_
      have next := ih bad n (done ++ [⟨name.text?, value⟩]) fuel
      rwa [List.length_append] at next
    · obtain ⟨skips, nothing⟩ := malformed setup m done rest done.length
      rw [skips, nothing]
      exact .skipped

theorem propertiesSkip {entries : List Operand} (bad : ¬ entries.all Operand.isProperty)
    (setup : Setup) (m : Machine) (index : Nat) (done : List Entry) (fuel : Nat) :
    Skips setup .pushObject "(key, value)" m (propertyCodes index entries) fuel
      ((m.nextProperty setup index done entries).onward setup fuel) := by
  induction entries generalizing m index done fuel with
  | nil => exact (bad rfl).elim
  | cons x rest ih =>
    rcases propertyCases x with ⟨key, code, rfl⟩ | malformed
    · refine Skips.first (c := (key, 2 * index)) fun value n fuel => ?_
      rw [Machine.resume]
      cases value.key? with
      | none => exact .fails
      | some name =>
        exact Skips.first (c := (code, 2 * index + 1)) fun value n fuel =>
          ih bad n (index + 1) (setEntry done name value) fuel
    · obtain ⟨skips, nothing⟩ := malformed setup m index done rest
      rw [skips, nothing]
      exact .skipped

theorem closureRefused {l : Level} {operand : Operand} {expected : String} {id : Nat}
    (refused : closureOf l id operand = .error expected) (other : Nat) :
    closureOf l other operand = .error expected := by
  -- Whether a function is refused does not depend on its identity.
  unfold closureOf at refused ⊢
  split at refused
  · cases params : closureParams l 0 _ with
    | error e =>
      rw [params] at refused
      exact refused
    | ok params' =>
      rw [params] at refused
      cases refused
  · exact refused

section
variable {i : Instr} {m : Machine} {expected : String}

theorem jumpSkips (expects : m.current.expectsOffset? i.operand = some expected) (setup : Setup) :
    m.execJump setup i = m.skip setup i.opcode expected := by
  unfold Level.expectsOffset? at expects
  unfold Machine.execJump
  cases given : i.operand.offset? with
  | none =>
    simp only [given, Option.some.injEq] at expects
    rw [← expects]
  | some offset =>
    cases target : jumpTarget? m.current.ip offset m.current.routine.code.length with
    | none =>
      simp only [given, target, Option.some.injEq] at expects
      simp only [target, ← expects]
    | some target =>
      simp only [given, target, reduceCtorEq] at expects

theorem constantSkips (op : i.opcode = .push) (unknown : Value.ofOperand? i.operand = none)
    (setup : Setup) : m.exec setup i = m.skip setup .push "a constant" := by
  simp only [Machine.exec, op, unknown]

theorem functionSkips (op : i.opcode = .proc)
    (refused : closureOf m.current 0 i.operand = .error expected) (setup : Setup) :
    m.exec setup i = m.skip setup .proc expected := by
  simp only [Machine.exec, op, Machine.execProc, closureRefused refused]

theorem listSkips {op : Opcode} {form : Operand → Bool} {entry whole : String} {operand : Operand}
    {codes : List Operand → List (Code × Nat)} {goes : List Operand → Transition} {setup : Setup}
    {fuel : Nat} (nothing : codes [] = [])
    (entries : ∀ items : List Operand, ¬ items.all form →
      Skips setup op entry m (codes items) fuel ((goes items).onward setup fuel)) :
    operand.expectsList? form entry whole = some expected →
      Skips setup op expected m (codes operand.entries) fuel
        ((match operand with
          | .list items => goes items
          | _ => m.skip setup op whole).onward setup fuel) := by
  intro expects
  cases operand with
  | list items =>
    obtain ⟨bad, same⟩ := Option.ite_none_left_eq_some.mp expects
    cases same
    exact entries items bad
  | _ =>
    cases expects
    change Skips setup op _ m (codes []) fuel _
    rw [nothing]
    exact .skipped

theorem execSkips (expects : i.expects? m.current = some expected) (setup : Setup) (fuel : Nat) :
    Skips setup i.opcode expected m i.evaluated fuel ((m.exec setup i).onward setup fuel) := by
  have alone {op : Opcode} (nothing : i.evaluated = [])
      (skips : m.exec setup i = m.skip setup op expected) :
      Skips setup op expected m i.evaluated fuel ((m.exec setup i).onward setup fuel) := by
    rw [nothing, skips]
    exact .skipped
  have jumps {op : Opcode} (same : i.opcode = op) (jump : m.exec setup i = m.execJump setup i)
      (nothing : i.evaluated = [])
      (expects : m.current.expectsOffset? i.operand = some expected) :
      Skips setup op expected m i.evaluated fuel ((m.exec setup i).onward setup fuel) :=
    alone nothing (jump.trans (same ▸ jumpSkips expects setup))
  cases op : i.opcode with
  | push =>
    simp only [Instr.expects?, op] at expects
    refine alone (by simp only [Instr.evaluated, op]) ?_
    cases given : Value.ofOperand? i.operand with
    | none =>
      rw [given] at expects
      cases expects
      exact constantSkips op given setup
    | some value =>
      rw [given] at expects
      cases expects
  | pushObject =>
    simp only [Instr.expects?, Instr.evaluated, Machine.exec, op] at expects ⊢
    exact listSkips rfl (fun _ bad => propertiesSkip bad setup m 0 [] fuel) expects
  | call =>
    simp only [Instr.expects?, Instr.evaluated, Machine.exec, op] at expects ⊢
    exact listSkips rfl (fun _ bad => argumentsSkip bad setup m [] fuel) expects
  | proc =>
    simp only [Instr.expects?, op, Level.expectsFunction?] at expects
    refine alone (by simp only [Instr.evaluated, op]) ?_
    cases made : closureOf m.current 0 i.operand with
    | ok closure =>
      rw [made] at expects
      cases expects
    | error other =>
      rw [made] at expects
      cases expects
      exact functionSkips op made setup
  | jmp | jz | jnz =>
    simp only [Instr.expects?, op] at expects
    exact jumps op (by simp only [Machine.exec, op]) (by simp only [Instr.evaluated, op]) expects
  | _ => simp only [Instr.expects?, op, reduceCtorEq] at expects

end

theorem malformedSkips {setup : Setup} {m : Machine} {i : Instr} {expected : String}
    (found : m.current.instr? = some i) (expects : i.expects? m.current = some expected)
    (within : { m with steps := m.steps + 1 }.overLimit? setup.limits = none) (fuel : Nat) :
    Skips setup i.opcode expected { m with steps := m.steps + 1 } i.evaluated fuel
      (m.run setup (fuel + 1)) := by
  rw [Machine.runStep, Machine.stepWithin found within]
  exact execSkips (m := { m with steps := m.steps + 1 }) expects setup fuel

/-- What a malformed instruction leaves of its level. Unless the run fails, or one of the codes is
still being evaluated above it, the level goes on behind the instruction with the stack and the calls
that it had, above the same levels. -/
inductive Transition.KeepsLevel (setup : Setup) (l : Level) (outer : List Waiting) :
    Transition → Prop where
  | fails {last : Machine} {e : RunError} : KeepsLevel setup l outer (.failed last e)
  | evaluating {n : Machine} {w : Waiting} (level : w.level = { l with peak := w.level.peak })
      (above : w :: outer <:+ n.outer) : KeepsLevel setup l outer (.running n)
  | behind {n : Machine} {fuel : Nat} (same : n.outer = outer)
      (level : n.current = { l with ip := l.ip + 1, peak := n.current.peak }) :
      KeepsLevel setup l outer (n.run setup fuel)

section
variable {setup : Setup} {m : Machine} {i : Instr} {expected : String}

theorem Skips.keepsLevel {op : Opcode} {codes : List (Code × Nat)} {fuel : Nat} {t : Transition}
    (skips : Skips setup op expected m codes fuel t) : t.KeepsLevel setup m.current m.outer := by
  induction skips with
  | skipped => exact .behind rfl rfl
  | fails => exact .fails
  | evaluating started continues =>
    have above := continues.above
    rw [Machine.evaluateOuter started] at above
    cases above with
    | running above => exact .evaluating rfl above
    | failed => exact .fails
  | evaluated _ _ _ ih =>
    cases ih with
    | fails => exact .fails
    | evaluating level above => exact .evaluating level above
    | behind same level => exact .behind same level

theorem malformedKeepsLevel (found : m.current.instr? = some i)
    (expects : i.expects? m.current = some expected)
    (within : { m with steps := m.steps + 1 }.overLimit? setup.limits = none) (fuel : Nat) :
    (m.run setup (fuel + 1)).KeepsLevel setup m.current m.outer :=
  (malformedSkips found expects within fuel).keepsLevel

/-- Without anything to evaluate, a malformed instruction has no effect. -/
theorem malformedAlone (found : m.current.instr? = some i)
    (expects : i.expects? m.current = some expected)
    (within : { m with steps := m.steps + 1 }.overLimit? setup.limits = none)
    (nothing : i.evaluated = []) : m.step setup = .running
      { m with
        steps := m.steps + 1
        diagnostics := m.diagnostics ++
          [(Fault.malformedOperand i.opcode expected).diagnostic (setup.spanOf i.source)]
        current := { m.current with ip := m.current.ip + 1 } } := by
  have source : m.current.source? = i.source := by rw [Level.source?, found, Option.bind_some]
  have skips := malformedSkips found expects within 0
  rw [Machine.runStep, nothing] at skips
  generalize stepped : (m.step setup).onward setup 0 = t at skips
  cases skips
  rw [← source]
  cases goes : m.step setup with
  | _ => rw [goes] at stepped; exact stepped

end

-- A call with an argument that prints, in front of one that is malformed.
def printsFirst : Code :=
  [.mk .push (.str "print") none, .mk .load .null none,
    .mk .call (.list [.tuple .null (.code
      [.mk .push (.str "print") none, .mk .load .null none,
        .mk .call (.list [.tuple .null (.code [.mk .push (.str "x") none])]) none]), .null]) none]

-- The call is skipped, with its function left on the stack, but what was printed stays.
example : (match (Machine.new.load printsFirst).run ⟨.standard, [], none, true⟩ 10 with
    | .ended m => decide (m.output = "x\n" ∧ m.current.stack.length = 1 ∧ m.diagnostics.length = 1)
    | _ => false) = true := by decide +kernel

end Quill
