import Quill.Proofs.Evaluation.Direct
import Quill.Proofs.Folding.Blocks
import Quill.Proofs.Folding.Doubles
import Quill.Code.Generate

/-! Pieces of code that perform an evaluation. A piece takes cells off the stack and leaves others
there, wherever it stands in the code that runs. -/
namespace Quill

def Code.has (code : Code) (ip : Nat) (piece : Code) : Prop :=
  ∃ before after, code = before ++ (piece ++ after) ∧ before.length = ip

namespace Code.has

variable {code a b : Code} {ip : Nat} {i : Instr}

theorem first (has : code.has ip (a ++ b)) : code.has ip a := by
  obtain ⟨before, after, same, place⟩ := has
  exact ⟨before, b ++ after, by rw [same, List.append_assoc], place⟩

theorem second (has : code.has ip (a ++ b)) : code.has (ip + a.length) b := by
  obtain ⟨before, after, same, place⟩ := has
  refine ⟨before ++ a, after, ?_, ?_⟩
  · rw [same, List.append_assoc, List.append_assoc]
  · rw [List.length_append, place]

theorem instr (has : code.has ip (i :: b)) : code[ip]? = some i := by
  obtain ⟨before, after, rfl, rfl⟩ := has
  rw [List.getElem?_append_right (Nat.le_refl _), Nat.sub_self]
  rfl

theorem rest (has : code.has ip (i :: b)) : code.has (ip + 1) b := second (a := [i]) has

theorem bound (has : code.has ip a) : ip + a.length ≤ code.length := by
  obtain ⟨before, after, rfl, rfl⟩ := has
  simp only [List.length_append]
  omega

end Code.has

structure Spot where
  cells : List Cell
  depth : Nat

def Spot.push (p : Spot) (value : Value) (source : Option Nat) : Spot :=
  { p with cells := ⟨value, source⟩ :: p.cells }

structure Machine.At (setup : Setup) (code : Code) (below : List Cell) (m : Machine) (ip : Nat)
    (p : Spot) (chain : Chain) : Prop where
  runs : m.current.routine.code = code
  here : m.current.ip = ip
  stack : m.current.stack = p.cells ++ below
  depth : chain.length = p.depth
  holds : m.scopes.Holds m.current.scope chain
  frames : m.current.frames = []
  outer : m.outer = []
  -- Every cell was put there by an instruction of its own.
  low : m.current.stack.length ≤ ip
  room : code.length ≤ setup.limits.maxStackSize
  unlimited : setup.limits.maxSteps = none

section
variable {α β : Type} {setup : Setup} {m next : Machine} {rounds : Nat}
  {good : α → Chain → Machine → Prop} {good' : β → Chain → Machine → Prop}

/-- A run does what an evaluation does: it gets to where the value is, fails for the same fault, or
goes on for `rounds` steps at least. -/
inductive Meets (setup : Setup) (rounds : Nat) (m : Machine) (good : α → Chain → Machine → Prop) :
    EStateM.Result Halt Chain α → Prop where
  | done {steps : Nat} {next : Machine} {a : α} {chain : Chain}
      (runs : m.run setup steps = .running next) (holds : good a chain next) :
      Meets setup rounds m good (.ok a chain)
  | failed {steps : Nat} {last : Machine} {fault : Fault} {node : Nat} {chain : Chain}
      (runs : m.run setup steps = .failed last ⟨fault, [], some node⟩)
      (globals : last.scopes.globals = chain.globals) :
      Meets setup rounds m good (.error (.failed fault node) chain)
  | exhausted {next : Machine} {chain : Chain} (runs : m.run setup rounds = .running next) :
      Meets setup rounds m good (.error .exhausted chain)

theorem runShorter {steps : Nat} (runs : m.run setup steps = .running next) {fewer : Nat}
    (less : fewer ≤ steps) : ∃ earlier, m.run setup fewer = .running earlier := by
  cases outcome : m.run setup fewer with
  | running earlier => exact ⟨earlier, rfl⟩
  | ended _ | failed _ _ =>
    have stays := Machine.runStays outcome rfl (steps - fewer)
    rw [Nat.add_sub_cancel' less, runs] at stays
    cases stays

theorem Machine.runNothing (setup : Setup) (m : Machine) : m.run setup 0 = .running m := rfl

theorem Meets.counted {steps more : Nat} {r : EStateM.Result Halt Chain α}
    (runs : m.run setup steps = .running next) (enough : more ≤ steps)
    (meets : Meets setup rounds next good r) : Meets setup (rounds + more) m good r := by
  cases meets with
  | done runs' holds => exact .done ((Machine.runGoesOn runs _).trans runs') holds
  | failed runs' globals => exact .failed ((Machine.runGoesOn runs _).trans runs') globals
  | exhausted runs' =>
    have enough' : rounds + more ≤ steps + rounds := by omega
    obtain ⟨_, earlier⟩ := runShorter ((Machine.runGoesOn runs rounds).trans runs') enough'
    exact .exhausted earlier

theorem Meets.later {steps : Nat} {r : EStateM.Result Halt Chain α}
    (runs : m.run setup steps = .running next) (meets : Meets setup rounds next good r) :
    Meets setup rounds m good r :=
  meets.counted runs (Nat.zero_le _)

theorem Meets.fewer {fewer : Nat} {r : EStateM.Result Halt Chain α} (less : fewer ≤ rounds)
    (meets : Meets setup rounds m good r) : Meets setup fewer m good r := by
  cases meets with
  | done runs holds => exact .done runs holds
  | failed runs globals => exact .failed runs globals
  | exhausted runs =>
    obtain ⟨_, earlier⟩ := runShorter runs less
    exact .exhausted earlier

theorem Meets.onward {further : α → Chain → Machine → Prop} {r : EStateM.Result Halt Chain α}
    (meets : Meets setup rounds m good r) (goes : ∀ a chain next, good a chain next →
      ∃ steps last, next.run setup steps = .running last ∧ further a chain last) :
    Meets setup rounds m further r := by
  cases meets with
  | done runs holds =>
    obtain ⟨_, _, runs', holds'⟩ := goes _ _ _ holds
    exact .done ((Machine.runGoesOn runs _).trans runs') holds'
  | failed runs globals => exact .failed runs globals
  | exhausted runs => exact .exhausted runs

theorem Meets.bind {x : Eval α} {f : α → Eval β} {chain : Chain}
    (first : Meets setup rounds m good (x chain))
    (continues : ∀ a chain' next, good a chain' next → Meets setup rounds next good' (f a chain')) :
    Meets setup rounds m good' ((x >>= f) chain) := by
  change Meets setup rounds m good' (EStateM.bind x f chain)
  unfold EStateM.bind
  generalize x chain = r at first
  cases first with
  | done runs holds => exact (continues _ _ _ holds).later runs
  | failed runs globals => exact .failed runs globals
  | exhausted runs => exact .exhausted runs

end

/-- A piece of code performs an evaluation, wherever it stands: it leads from one spot to another, by
as many instructions as it has. -/
def Performs {α : Type} (setup : Setup) (rounds : Nat) (piece : Code) (p : Spot) (x : Eval α)
    (q : α → Spot) : Prop :=
  ∀ (code : Code) below (m : Machine) ip chain, Code.has code ip piece →
    m.At setup code below ip p chain →
      Meets setup rounds m (fun a chain' next =>
        next.At setup code below (ip + piece.length) (q a) chain') (x chain)

section
variable {setup : Setup} {code : Code} {below : List Cell} {m : Machine} {ip : Nat} {p q : Spot}
  {chain : Chain} {i : Instr}

namespace Machine.At

theorem instr (at_ : m.At setup code below ip p chain) (found : code[ip]? = some i) :
    m.current.instr? = some i := by
  rw [Level.instr?, at_.runs, at_.here, found]

theorem counted (at_ : m.At setup code below ip p chain) :
    Machine.At setup code below { m with steps := m.steps + 1 } ip p chain :=
  { at_ with }

theorem one (at_ : m.At setup code below ip p chain) (found : code[ip]? = some i) :
    m.run setup 1 = { m with steps := m.steps + 1 }.exec setup i := by
  rw [runOne, stepRuns (at_.instr found) at_.unlimited]
  have inside := (List.getElem?_eq_some_iff.mp found).1
  exact Nat.le_trans at_.low (Nat.le_trans (Nat.le_of_lt inside) at_.room)

theorem moves {scopes : ScopeHeap} {scope target : Nat} {chain' : Chain}
    (at_ : m.At setup code below ip p chain) (holds : scopes.Holds scope chain')
    (depth : chain'.length = q.depth) (low : (q.cells ++ below).length ≤ target) :
    Machine.At setup code below
      { m with
        scopes := scopes
        current := { m.current with stack := q.cells ++ below, scope := scope, ip := target } }
      target q chain' :=
  { at_ with here := rfl, stack := rfl, depth := depth, holds := holds, low := low }

theorem goes {scopes : ScopeHeap} {scope : Nat} {chain' : Chain}
    (at_ : m.At setup code below ip p chain) (holds : scopes.Holds scope chain')
    (depth : chain'.length = q.depth) (more : q.cells.length ≤ p.cells.length + 1) :
    Machine.At setup code below
      { m with
        scopes := scopes
        current :=
          { m.current with stack := q.cells ++ below, scope := scope, ip := m.current.ip + 1 } }
      (ip + 1) q chain' := by
  have low := at_.low
  rw [at_.stack, List.length_append] at low
  rw [at_.here]
  exact at_.moves holds depth (by rw [List.length_append]; omega)

theorem pushes {scopes : ScopeHeap} {chain' : Chain} (at_ : m.At setup code below ip p chain)
    (found : code[ip]? = some i) (holds : scopes.Holds m.current.scope chain')
    (depth : chain'.length = q.depth) (less : q.cells.length ≤ p.cells.length) (v : Value) :
    ∃ next, { m with scopes := scopes }.push v (q.cells ++ below) = .running next ∧
      next.At setup code below (ip + 1) (q.push v i.source) chain' := by
  have source : m.current.source? = i.source := sourceOf (at_.instr found)
  refine ⟨_, rfl, ?_⟩
  change Machine.At _ _ _ { m with scopes := scopes, current := { m.current with
    stack := ⟨v, m.current.source?⟩ :: (q.cells ++ below), ip := m.current.ip + 1 } } _ _ _
  rw [source]
  exact at_.goes (q := q.push v i.source) holds depth (Nat.succ_le_succ less)

theorem fails {n : Nat} (at_ : m.At setup code below ip p chain) (node : Option Nat)
    (found : code[ip]? = some i) (blamed : node.or i.source = some n) (fault : Fault)
    (stack : List Cell) :
    ∃ last, (m.withStack stack).fail setup fault node = .failed last ⟨fault, [], some n⟩ ∧
      last.scopes.globals = chain.globals := by
  have source : (m.withStack stack).current.source? = i.source := sourceOf (at_.instr found)
  have calls : (m.withStack stack).current.frames = [] := at_.frames
  have alone : (m.withStack stack).outer = [] := at_.outer
  have blamed' : node.or ([(m.withStack stack).current].findSome? Level.source?) = some n := by
    rw [List.findSome?_singleton, source, blamed]
  have free : [(m.withStack stack).current].reverse.flatMap (Level.calls setup.spanOf) = [] := by
    simp only [List.reverse_singleton, List.flatMap_singleton, Level.calls, calls, List.reverse_nil,
      List.map_nil]
  simp only [fail, alone, List.map_nil, blamed', free]
  exact ⟨_, rfl, at_.holds.globals⟩

end Machine.At

variable {α β : Type} {rounds : Nat} {x : Eval α} {a b : Code}

namespace Performs

theorem nil {v : α} {q : α → Spot} (same : q v = p) :
    Performs setup rounds [] p (pure v) q :=
  fun _ _ _ _ _ _ at_ => .done (Machine.runNothing _ _) (same ▸ at_)

theorem append {f : α → Eval β} {q : α → Spot} {r : β → Spot}
    (first : Performs setup rounds a p x q) (second : ∀ v, Performs setup rounds b (q v) (f v) r) :
    Performs setup rounds (a ++ b) p (x >>= f) r := by
  intro code below m ip chain has at_
  refine (first code below m ip chain has.first at_).bind fun v chain' next at' => ?_
  have rest := second v code below next _ chain' has.second at'
  rw [Nat.add_assoc, ← List.length_append] at rest
  exact rest

theorem after {v : α} {q : α → Spot} {y : Eval β} {r : β → Spot}
    (first : Performs setup rounds a p (pure v) q) (second : Performs setup rounds b (q v) y r) :
    Performs setup rounds (a ++ b) p y r := by
  intro code below m ip chain has at_
  cases first code below m ip chain has.first at_ with
  | done runs at' =>
    have rest := second code below _ _ chain has.second at'
    rw [Nat.add_assoc, ← List.length_append] at rest
    exact rest.later runs

theorem gives {f : α → β} {q : α → Spot} {r : β → Spot} (performs : Performs setup rounds a p x q)
    (same : ∀ v, r (f v) = q v) : Performs setup rounds a p (x >>= fun v => pure (f v)) r := by
  have longer := performs.append fun v => Performs.nil (same v)
  rwa [List.append_nil] at longer

theorem opened {q : α → Spot}
    (performs : 0 < p.depth → Performs setup rounds a p x q) : Performs setup rounds a p x q := by
  intro code below m ip chain has at_
  refine performs ?_ code below m ip chain has at_
  rw [← at_.depth]
  exact at_.holds.nonempty

theorem one {v : α} {change : Chain → Chain} {q : α → Spot}
    (same : ∀ chain, x chain = .ok v (change chain))
    (exec : ∀ {code below} {m : Machine} {ip chain}, m.At setup code below ip p chain →
      code[ip]? = some i → ∃ next, m.exec setup i = .running next ∧
        next.At setup code below (ip + 1) (q v) (change chain)) : Performs setup rounds [i] p x q := by
  intro code below m ip chain has at_
  obtain ⟨next, runs, at'⟩ := exec at_.counted has.instr
  rw [same]
  exact .done ((at_.one has.instr).trans runs) at'

theorem constant (mark : Mark) {o : Operand} {v : Value} (constant : Value.ofOperand? o = some v) :
    Performs setup rounds [Bound.push mark o] p (pure v) fun v => p.push v (some mark.id) := by
  refine .one (fun _ => rfl) fun at_ found => ?_
  rw [Machine.execPush (i := Bound.push mark o) rfl constant, at_.stack]
  exact at_.pushes found at_.holds at_.depth (Nat.le_refl _) v

theorem pushNone (mark : Mark) :
    Performs setup rounds [Bound.instr mark .pushNone] p (pure Value.none) fun v =>
      p.push v (some mark.id) := by
  refine .one (fun _ => rfl) fun at_ found => ?_
  change ∃ next, Machine.push _ Value.none _ = _ ∧ _
  rw [at_.stack]
  exact at_.pushes found at_.holds at_.depth (Nat.le_refl _) _

theorem pop (mark : Mark) {v : Value} {source : Option Nat} :
    Performs setup rounds [Bound.instr mark .pop] (p.push v source) (pure ()) fun _ => p := by
  refine .one (fun _ => rfl) fun at_ _ => ?_
  simp only [Machine.exec, Bound.instr, Instr.opcode, at_.stack, Spot.push, List.cons_append]
  exact ⟨_, rfl, at_.goes at_.holds at_.depth (by simp only [Spot.push, List.length_cons]; omega)⟩

theorem load (mark : Mark) (name : String) :
    Performs setup rounds (Bound.load mark name) p (Eval.load mark name) fun v =>
      p.push v (some mark.id) := by
  refine (Performs.constant mark rfl).after (v := .str name)
    fun code below m ip chain has at_ => ?_
  have found := has.instr
  have runs := at_.one found
  simp only [Machine.exec, Bound.instr, Instr.opcode, Machine.execLoad, Machine.popName, at_.stack,
    Spot.push, List.cons_append, at_.holds.get] at runs
  cases value : chain.get? name with
  | some v =>
    rw [Eval.loadFound value]
    obtain ⟨next, pushed, at'⟩ := at_.counted.pushes (q := p) found at_.holds at_.depth
      (by simp only [Spot.push, List.length_cons]; omega) v
    simp only [value] at runs
    exact .done (runs.trans pushed) at'
  | none =>
    rw [Eval.loadMissing value]
    obtain ⟨last, failed, globals⟩ := at_.counted.fails none found rfl
      (.undefinedVariable name) (p.cells ++ below)
    simp only [value] at runs
    exact .failed (runs.trans failed) globals

theorem loadTwice (mark : Mark) (name : String) :
    Performs setup rounds (Bound.load mark name ++ Bound.load mark name) p (Eval.load mark name)
      fun v => (p.push v (some mark.id)).push v (some mark.id) := by
  have performs (p : Spot) : Performs setup rounds (Bound.load mark name) p (Eval.load mark name)
      fun v => p.push v (some mark.id) := load mark name
  intro code below m ip chain has at_
  have first := performs p code below m ip chain has.first at_
  rw [List.length_append, ← Nat.add_assoc]
  cases value : chain.get? name with
  | some v =>
    rw [Eval.loadFound value] at first ⊢
    cases first with
    | done runs at' =>
      have second := performs _ code below _ _ chain has.second at'
      rw [Eval.loadFound value] at second
      cases second with
      | done runs' at'' => exact .done ((Machine.runGoesOn runs _).trans runs') at''
  | none =>
    rw [Eval.loadMissing value] at first ⊢
    cases first with
    | failed runs globals => exact .failed runs globals

theorem store (mark : Mark) (name : String) {v : Value} {source : Option Nat} :
    Performs setup rounds (Bound.store mark name) (p.push v source) (Eval.store name v) fun _ =>
      p.push v (some mark.id) := by
  refine (Performs.constant mark rfl).after (v := .str name) (.one (fun _ => rfl) fun at_ found => ?_)
  simp only [Machine.exec, Bound.instr, Instr.opcode, Machine.execStore, Machine.popAssignment,
    Machine.popName, at_.stack, Spot.push, List.cons_append]
  exact at_.pushes (q := p) found at_.holds.assign ((Chain.assignLength _ _ _).trans at_.depth)
    (by simp only [Spot.push, List.length_cons]; omega) v

theorem define (mark : Mark) (name : String) {v : Value} {source : Option Nat} :
    Performs setup rounds (Bound.define mark name) (p.push v source) (Eval.define name v) fun _ =>
      p := by
  refine (Performs.constant mark rfl).after (v := .str name) (.one (fun _ => rfl) fun at_ _ => ?_)
  simp only [Machine.exec, Bound.instr, Instr.opcode, Machine.execDefine, Machine.popAssignment,
    Machine.popName, at_.stack, Spot.push, List.cons_append]
  exact ⟨_, rfl, at_.goes at_.holds.define ((Chain.defineLength _ _ _).trans at_.depth)
    (by simp only [Spot.push, List.length_cons]; omega)⟩

theorem binary (mark divisor : Mark) {op : Opcode} (binary : op.isBinary) {v w : Value}
    {source : Option Nat} : Performs setup rounds [Bound.instr mark op]
      ((p.push v source).push w (some divisor.id)) (Eval.binary mark divisor op v w) fun u =>
        p.push u (some mark.id) := by
  intro code below m ip chain has at_
  have found := has.instr
  have runs := at_.one found
  rw [Machine.execOfBinary (i := Bound.instr mark op) binary] at runs
  simp only [Machine.execBinary, Bound.instr, Instr.opcode, at_.stack, Spot.push,
    List.cons_append] at runs
  have less : p.cells.length ≤ ((p.push v source).push w (some divisor.id)).cells.length := by
    simp only [Spot.push, List.length_cons]
    omega
  unfold Eval.binary
  cases given : Value.binary op v w with
  | ok u =>
    obtain ⟨next, pushed, at'⟩ := at_.counted.pushes (q := p) found at_.holds at_.depth less u
    simp only [given] at runs
    exact .done (runs.trans pushed) at'
  | error e =>
    simp only [given] at runs
    cases e with
    | divisionByZero =>
      obtain ⟨last, failed, globals⟩ := at_.counted.fails (some divisor.id) found rfl
        .divisionByZero (p.cells ++ below)
      exact .failed (runs.trans failed) globals
    | _ =>
      obtain ⟨last, failed, globals⟩ := at_.counted.fails none found rfl
        (.typeMismatch _) (p.cells ++ below)
      exact .failed (runs.trans failed) globals

theorem unary (mark operandMark : Mark) {op : Opcode} (unary : op.isUnary) {v : Value} :
    Performs setup rounds [Bound.instr mark op] (p.push v (some operandMark.id))
      (Eval.unary operandMark op v) fun u => p.push u (some mark.id) := by
  intro code below m ip chain has at_
  have found := has.instr
  have runs := at_.one found
  rw [Machine.execOfUnary (i := Bound.instr mark op) unary] at runs
  simp only [Machine.execUnary, Bound.instr, Instr.opcode, at_.stack, Spot.push,
    List.cons_append] at runs
  unfold Eval.unary
  cases given : Value.unary op v with
  | ok u =>
    obtain ⟨next, pushed, at'⟩ := at_.counted.pushes (q := p) found at_.holds at_.depth
      (by simp only [Spot.push, List.length_cons]; omega) u
    simp only [given] at runs
    exact .done (runs.trans pushed) at'
  | error e =>
    obtain ⟨last, failed, globals⟩ := at_.counted.fails (some operandMark.id) found rfl
      (.typeMismatch e.message) (p.cells ++ below)
    simp only [given] at runs
    exact .failed (runs.trans failed) globals

theorem beginScope (mark : Mark) : Performs setup rounds [Bound.instr mark .beginScope] p
    Eval.beginScope fun _ => ⟨p.cells, p.depth + 1⟩ := by
  refine .one (fun _ => rfl) fun at_ _ => ?_
  change ∃ next, Machine.beginScope _ = _ ∧ _
  unfold Machine.beginScope
  dsimp only
  rw [at_.stack]
  exact ⟨_, rfl, at_.goes (q := ⟨p.cells, p.depth + 1⟩) at_.holds.child
    (congrArg (· + 1) at_.depth) (Nat.le_succ _)⟩

theorem endScope (mark : Mark) (inner : 0 < p.depth) :
    Performs setup rounds [Bound.instr mark .endScope] ⟨p.cells, p.depth + 1⟩ Eval.endScope fun _ =>
      p := by
  -- The outermost scope is never left.
  refine .one (fun _ => rfl) fun {_ _ _ _ chain} at_ _ => ?_
  change ∃ next, Machine.endScope _ = _ ∧ _
  have depth := at_.depth
  cases chain with
  | nil => cases depth
  | cons vars outer =>
    have depth : outer.length = p.depth := Nat.succ.inj depth
    obtain ⟨scope, enclosing, holds⟩ := at_.holds.enclosing (by
      rintro rfl
      rw [← depth] at inner
      cases inner)
    unfold Machine.endScope
    rw [enclosing, at_.stack]
    exact ⟨_, rfl, at_.goes holds depth (Nat.le_succ _)⟩

end Performs

end

end Quill
