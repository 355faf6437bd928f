import Quill.Proofs.Binding.Statements
import Quill.Proofs.Typing.Steps
import Mathlib.Algebra.GroupWithZero.Nat

/-! The discipline of the stack and of scopes in runs of compiled programs. A call that returns does
so to whoever made it, however deep the run has gone meanwhile. -/
namespace Quill

def heightOf (frames : List Frame) (outer : List Waiting) : Nat :=
  frames.length + (outer.map fun w => w.level.frames.length + 1).sum

def Machine.height (m : Machine) : Nat := heightOf m.current.frames m.outer

/-- The level to go on with once a call of a closure has returned, without its result. If the call
takes the place of its caller, that is where the caller would have returned to. -/
def Level.home (setup : Setup) (l : Level) (c : Closure) (below : List Cell) : Level :=
  match l.frames with
  | f :: frames =>
    if l.reuses setup c then
      { l with
        stack := below.drop (below.length - f.stackBase), scope := f.scope, routine := f.routine
        ip := f.returnIp, frames := frames }
    else { l with stack := below, ip := l.ip + 1 }
  | [] => { l with stack := below, ip := l.ip + 1 }

structure Machine.Restores (m : Machine) (l : Level) (outer : List Waiting) : Prop where
  stack : ∃ result, m.current.stack = result :: l.stack
  scope : m.current.scope = l.scope
  routine : m.current.routine = l.routine
  ip : m.current.ip = l.ip
  frames : m.current.frames = l.frames
  outer : m.outer = outer

structure Machine.FirstDown (setup : Setup) (m : Machine) (height fuel : Nat) (down : Machine) :
    Prop where
  later : 0 < fuel
  reached : m.run setup fuel = .running down
  low : down.height ≤ height
  high : ∀ n, 0 < n → n < fuel → ∀ k, m.run setup n = .running k → height < k.height

def Transition.Clean : Transition → Prop
  | .running m | .ended m => m.diagnostics = []
  | .failed m e => ¬ e.fault.Malformed ∧ ∃ span, m.diagnostics = [e.fault.diagnostic span]

variable {P : Whole} {K : List Caller} {m : Machine} {a : Caller}

theorem Below.height {h : ScopeHeap} {main : Bool} {below : List Cell} {frames : List Frame}
    {outer : List Waiting} (rest : Below P h K main below frames outer) :
    heightOf frames outer = K.length := by
  induction rest with
  | program _ => rfl
  | call _ _ _ _ _ _ _ ih =>
    unfold heightOf at ih ⊢
    rw [List.length_cons, List.length_cons]
    omega
  | level _ _ _ _ _ frames _ _ _ ih =>
    unfold heightOf at ih ⊢
    rw [List.map_cons, List.sum_cons, List.length_cons, List.length_nil, frames]
    omega

theorem Machine.Fit.height (fit : m.Fit P K) : m.height = K.length := by
  obtain ⟨main, points, p, above, below, work⟩ := fit
  exact work.below.height

theorem Machine.Fit.clean (fit : m.Fit P K) : m.diagnostics = [] := by
  obtain ⟨main, points, p, above, below, work⟩ := fit
  exact work.clean

theorem Machine.Fit.step (fit : m.Fit P K) : (m.step P.setup).Fits P K := by
  obtain ⟨main, points, p, above, below, work⟩ := fit
  exact work.step

theorem Moves.follow {pre K' : List Caller} (moves : Moves m (pre ++ a :: K) K') :
    (∃ pre', K' = pre' ++ a :: K) ∨ K' = K ∧ m.Done a := by
  generalize waiting : pre ++ a :: K = all at moves
  cases moves with
  | stays => exact .inl ⟨pre, waiting.symm⟩
  | starts a' => exact .inl ⟨a' :: pre, by rw [List.cons_append, waiting]⟩
  | ends a' K' done =>
    cases pre with
    | nil =>
      cases waiting
      exact .inr ⟨rfl, done⟩
    | cons _ pre =>
      cases waiting
      exact .inl ⟨pre, rfl⟩

theorem Machine.runFirst {setup : Setup} {fuel : Nat} {down : Machine}
    (reached : m.run setup (fuel + 1) = .running down) :
    ∃ next, m.step setup = .running next ∧ next.run setup fuel = .running down := by
  rw [Machine.run] at reached
  cases stepped : m.step setup with
  | running next =>
    rw [stepped] at reached
    exact ⟨next, rfl, reached⟩
  | ended _ => rw [stepped] at reached; cases reached
  | failed _ _ => rw [stepped] at reached; cases reached

theorem Machine.FirstDown.next {setup : Setup} {height fuel : Nat} {down : Machine}
    (first : m.FirstDown setup height (fuel + 1) down) : ∃ next, m.step setup = .running next ∧
      (fuel = 0 ∧ next = down ∨ height < next.height ∧ next.FirstDown setup height fuel down) := by
  obtain ⟨next, stepped, reached⟩ := Machine.runFirst first.reached
  refine ⟨next, stepped, ?_⟩
  have through (n : Nat) : m.run setup (n + 1) = next.run setup n := by
    rw [Machine.run, stepped]
  cases fuel with
  | zero =>
    cases reached
    exact .inl ⟨rfl, rfl⟩
  | succ fuel =>
    have high := first.high 1 Nat.one_pos (by omega) next (through 0)
    refine .inr ⟨high, Nat.succ_pos _, reached, first.low, fun n later before k here => ?_⟩
    exact first.high (n + 1) (Nat.succ_pos _) (by omega) k ((through n).trans here)

theorem Machine.Fit.follow {fuel : Nat} {down : Machine} {pre : List Caller}
    (fit : m.Fit P (pre ++ a :: K)) (first : m.FirstDown P.setup K.length fuel down) :
    down.Done a := by
  induction fuel generalizing m pre with
  | zero => cases first.later
  | succ fuel ih =>
    obtain ⟨next, stepped, rest⟩ := first.next
    have fits := fit.step
    rw [stepped] at fits
    cases fits with
    | running fit moves =>
      -- The run is above `K` for as long as the caller is among those who wait.
      have height := fit.height
      rcases moves.follow with ⟨pre', rfl⟩ | ⟨rfl, done⟩
      · rcases rest with ⟨-, rfl⟩ | ⟨-, first⟩
        · have low := first.low
          rw [height, List.length_append, List.length_cons] at low
          omega
        · exact ih fit first
      · rcases rest with ⟨-, rfl⟩ | ⟨high, -⟩
        · exact done
        · omega

theorem Machine.Done.served (done : m.Done a) (stays : a.tail = none) : m.Back a := by
  cases done with
  | back _ back => exact back
  | replaced body => cases stays.symm.trans body

theorem Machine.Back.restores {l : Level} (back : m.Back a) (stack : l.stack = a.stack)
    (scope : l.scope = a.scope) (routine : l.routine = a.routine) (ip : l.ip = a.ip + 1)
    (frames : l.frames = a.frames) : m.Restores l a.outer := by
  refine ⟨?_, back.scope.trans scope.symm, back.routine.trans routine.symm, back.ip.trans ip.symm,
    back.frames.trans frames.symm, back.outer⟩
  rw [stack]
  exact back.result

namespace Machine

theorem Working.restoresTail {main : Bool} {points : Nat → Point} {p : Point}
    {above below kept : List Cell} {f : Frame} {frames : List Frame} {fuel : Nat} {c : Closure}
    {down : Machine} (work : m.Working P K main points p above below)
    (calls : m.current.frames = f :: frames) (reuses : m.current.reuses P.setup c)
    (first : m.FirstDown P.setup (heightOf frames m.outer) fuel down) :
    down.Restores (m.current.home P.setup c (kept ++ below)) m.outer := by
  have waiting := work.below
  rw [calls] at waiting
  obtain ⟨a, K', main', points', above', below', s', b', rfl, -, rfl, rfl, same, -, waiting, routine,
    returnIp, scope, height, stays⟩ := waiting.called
  rw [same, waiting.height] at first
  have fit : m.Fit P ([] ++ a :: K') := ⟨_, _, _, _, _, work⟩
  have back := (fit.follow first).served stays
  rw [same, Level.home, calls]
  simp only [if_pos reuses]
  refine back.restores ?_ scope routine returnIp rfl
  simp only [height, List.length_append, Nat.add_sub_cancel, List.drop_left]

theorem servedDown {fuel : Nat} {down : Machine} (serves : (m.step P.setup).Serves P a K)
    (first : m.FirstDown P.setup K.length fuel down) : down.Done a := by
  obtain ⟨fuel, rfl⟩ := Nat.exists_eq_add_one.mpr first.later
  obtain ⟨next, stepped, rest⟩ := first.next
  rw [stepped] at serves
  cases serves with
  | waits fit =>
    rcases rest with ⟨-, rfl⟩ | ⟨-, rest⟩
    · have low := first.low
      rw [fit.height, List.length_cons] at low
      omega
    · have waiting : next.Fit P ([] ++ a :: K) := fit
      exact waiting.follow rest
  | done fit done =>
    rcases rest with ⟨-, rfl⟩ | ⟨high, -⟩
    · exact done
    · rw [fit.height] at high
      omega

theorem Fit.restores {i : Instr} {c : Closure} {source : Option Nat} {rest : List Cell} {fuel : Nat}
    {down : Machine} (fit : m.Fit P K) (found : m.current.instr? = some i) (op : i.opcode = .call)
    (stack : m.current.stack = ⟨.function c, source⟩ :: rest)
    (first : m.FirstDown P.setup (heightOf (m.current.home P.setup c rest).frames m.outer) fuel
      down) : down.Restores (m.current.home P.setup c rest) m.outer := by
  obtain ⟨main, points, p, above, below, work⟩ := fit
  obtain ⟨callee, kept, top, serves⟩ := work.stepCall found op
  cases stack.symm.trans top
  by_cases reuses : m.current.reuses P.setup c
  · cases calls : m.current.frames with
    | nil =>
      rw [Level.reuses, isTailCall, calls, Bool.and_false] at reuses
      cases reuses
    | cons f frames =>
      rw [Level.home, calls] at first
      simp only [if_pos reuses] at first
      exact work.restoresTail calls reuses first
  · have home : m.current.home P.setup c (kept ++ below) =
        { m.current with stack := kept ++ below, ip := m.current.ip + 1 } := by
      unfold Level.home
      split
      · rw [if_neg reuses]
      · rfl
    rw [home] at first ⊢
    rw [show heightOf m.current.frames m.outer = K.length from work.below.height] at first
    have back := (servedDown serves first).served (if_neg reuses)
    exact back.restores rfl rfl rfl rfl rfl

theorem Fit.run (fit : m.Fit P K) (fuel : Nat) : ∃ K', (m.run P.setup fuel).Fits P K' := by
  induction fuel generalizing m K with
  | zero => exact ⟨K, .running fit (.stays K)⟩
  | succ fuel ih =>
    have fits := fit.step
    rw [Machine.run]
    cases stepped : m.step P.setup with
    | running next =>
      rw [stepped] at fits
      cases fits with
      | running fit _ => exact ih fit
    | ended next =>
      rw [stepped] at fits
      cases fits with
      | ended ends => exact ⟨K, .ended ends⟩
    | failed next e =>
      rw [stepped] at fits
      cases fits with
      | failed well => exact ⟨K, .failed well⟩

structure Disciplined (setup : Setup) (p : Program) (m : Machine) : Prop where
  clean (fuel : Nat) : (m.run setup fuel).Clean
  restores {fuel later : Nat} {n down : Machine} {i : Instr} {c : Closure} {source : Option Nat}
    {rest : List Cell} (reached : m.run setup fuel = .running n)
    (found : n.current.instr? = some i) (op : i.opcode = .call)
    (stack : n.current.stack = ⟨.function c, source⟩ :: rest)
    (first : n.FirstDown setup (heightOf (n.current.home setup c rest).frames n.outer) later down) :
    down.Restores (n.current.home setup c rest) n.outer
  ends (never : ¬ stmtsReturn p) {fuel : Nat} {n : Machine} (ended : m.run setup fuel = .ended n) :
    n.current.scope = ScopeHeap.global ∧ n.current.frames = [] ∧ n.outer = [] ∧
      n.current.stack.length = if p.endsInExpression then 1 else 0

end Machine

theorem resultLength (p : Bound.Program) : (Bound.resultOf p).length =
    if ((p.map Bound.Stmt.isExpression).getLast?.getD false) then 1 else 0 := by
  induction p using Bound.resultOf.induct with
  | case1 => rfl
  | case2 _ _ => rfl
  | case3 s rest other ih =>
    rw [Bound.resultOf, ih]
    · cases rest with
      | nil =>
        cases s with
        | expr m value => exact (other m value rfl rfl).elim
        | _ => rfl
      | cons _ _ => simp only [List.map_cons, List.getLast?_cons_cons]
    · exact other

theorem loadedFits (setup : Setup) {p : Bound.Program} {code : Code} (typed : ProgramTyped p code) :
    (Machine.new.load code).Fit ⟨setup, code, ⟨Bound.resultOf p, 0⟩⟩ [] := by
  obtain ⟨points, typing⟩ := typed.typed.typing
  refine ⟨true, points, .start, [], [], ?_⟩
  exact
    { stands := ⟨typing, fun _ => rfl, fun _ => rfl⟩
      here := typing.start
      stack := rfl
      holds := .nil
      below := .program fun _ => rfl
      cells := nofun
      scopes := newAlike _
      clean := rfl }

/-- Runs of compiled programs keep to the discipline of the stack and of scopes, if no instruction
sequence is too long for a jump. -/
theorem compiledDisciplined {source : String} {folding : Bool} {c : Compiled}
    (compiled : compile source folding = .ok c)
    (short : Short (Bound.programCode (bind c.program).1)) (setup : Setup) :
    (Machine.new.load c.code).Disciplined setup c.program := by
  have typed := compiledTyped compiled short
  have fit := loadedFits setup typed
  refine ⟨fun fuel => ?_, fun reached found op stack first => ?_, fun never {fuel n} ended => ?_⟩
  · obtain ⟨K, fits⟩ := fit.run fuel
    change ((Machine.new.load c.code).run setup fuel).Fits _ K at fits
    generalize (Machine.new.load c.code).run setup fuel = t at fits ⊢
    cases fits with
    | running fit _ => exact fit.clean
    | ended ends => exact ends.clean
    | failed well => exact ⟨well.fault, well.reported⟩
  · obtain ⟨K, fits⟩ := fit.run _
    change ((Machine.new.load c.code).run setup _).Fits _ K at fits
    rw [reached] at fits
    cases fits with
    | running fit _ => exact fit.restores found op stack first
  · obtain ⟨K, fits⟩ := fit.run fuel
    change ((Machine.new.load c.code).run setup fuel).Fits _ K at fits
    rw [ended] at fits
    cases fits with
    | ended ends =>
      refine ⟨ends.scope, ends.frames, ends.outer, ?_⟩
      rw [ends.height (typed.never (bindReturns never)), resultLength, bindExpressions,
        List.getLast?_map]
      rfl

-- Calls itself as its last act, until there is nothing left to halve.
def halving : String := "fn f(n) { if n == 0 { return n; } return f(n // 2); } f(2);"

theorem halvingCompiled :
    ∃ c, compile halving true = .ok c ∧ Short (Bound.programCode (bind c.program).1) := by
  have accepted : (match compile halving true with
      | .ok c => decide (Short (Bound.programCode (bind c.program).1))
      | .error _ => false) = true := by decide +kernel
  cases compiled : compile halving true with
  | ok c =>
    rw [compiled] at accepted
    exact ⟨c, rfl, of_decide_eq_true accepted⟩
  | error e =>
    rw [compiled] at accepted
    cases accepted

theorem halvingDisciplined : ∃ c, compile halving true = .ok c ∧
    (Machine.new.load c.code).Disciplined ⟨.standard, c.spans, none, true⟩ c.program := by
  obtain ⟨c, compiled, short⟩ := halvingCompiled
  exact ⟨c, compiled, compiledDisciplined compiled short _⟩

end Quill
