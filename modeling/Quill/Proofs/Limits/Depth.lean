import Quill.Proofs.Folding.Sessions
import Quill.Proofs.Limits.Course

/-! The limit of calls. Each level is started one call deeper than the level that waits for it, so
that the limit bounds the calls of all levels together, and the levels themselves. -/
namespace Quill

structure Tally.Within (limit : Nat) (t : Tally) : Prop where
  depth : t.depth ≤ limit
  peak : t.baseDepth + t.peak ≤ limit

inductive Stacked (limit : Nat) : Tally → List Waiting → Prop where
  | lowest {t : Tally} (base : t.baseDepth = 0) (within : t.Within limit) : Stacked limit t []
  | above {t : Tally} {w : Waiting} {outer : List Waiting}
      (base : t.baseDepth = w.level.depth + 1) (within : t.Within limit)
      (below : Stacked limit w.level.tally outer) : Stacked limit t (w :: outer)

def Machine.levels (m : Machine) : List Level := m.current :: m.outer.map Waiting.level

structure Machine.WithinCalls (limit : Nat) (m : Machine) : Prop where
  depth : ∀ l ∈ m.levels, l.depth ≤ limit
  peak : ∀ l ∈ m.levels, l.baseDepth + l.peak ≤ limit
  levels : m.outer.length ≤ limit

namespace Stacked

variable {limit : Nat} {t : Tally} {outer : List Waiting}

theorem within (stacked : Stacked limit t outer) : t.Within limit := by
  cases stacked with
  | lowest _ within => exact within
  | above _ within _ => exact within

theorem change (stacked : Stacked limit t outer) {u : Tally} (base : u.baseDepth = t.baseDepth)
    (within : u.Within limit) : Stacked limit u outer := by
  cases stacked with
  | lowest lowest _ => exact .lowest (base.trans lowest) within
  | above above _ below => exact .above (base.trans above) within below

theorem levelsWithin (stacked : Stacked limit t outer) :
    ∀ l ∈ outer.map Waiting.level, l.tally.Within limit := by
  induction stacked with
  | lowest _ _ => exact List.forall_mem_nil _
  | above _ _ below ih => exact List.forall_mem_cons.mpr ⟨below.within, ih⟩

theorem levelsFit (stacked : Stacked limit t outer) : outer.length ≤ t.baseDepth := by
  induction stacked with
  | lowest _ _ => exact Nat.zero_le _
  | @above t w outer base _ _ ih =>
    rw [base, List.length_cons]
    exact Nat.succ_le_succ (Nat.le_trans ih (Nat.le_add_right _ _))

theorem callsCounted {l : Level} (stacked : Stacked limit l.tally outer)
    (spanOf : Option Nat → Span) :
    ((l :: outer.map Waiting.level).reverse.flatMap (Level.calls spanOf)).length + outer.length =
      l.depth := by
  have own (l : Level) : (l.calls spanOf).length = l.frames.length := by
    simp only [Level.calls, List.length_map, List.length_reverse]
  induction outer generalizing l with
  | nil =>
    cases stacked with
    | lowest base _ =>
      change l.baseDepth = 0 at base
      simp only [Level.depth, base, List.map_nil, List.reverse_singleton, List.flatMap_singleton,
        List.length_nil, own]
      omega
  | cons w outer ih =>
    cases stacked with
    | above base _ below =>
      change l.baseDepth = w.level.depth + 1 at base
      have counted := ih below
      rw [List.map_cons, List.reverse_cons, List.flatMap_append, List.length_append,
        List.flatMap_singleton, own, List.length_cons, Level.depth, base]
      omega

theorem outermost {l : Level} (stacked : Stacked limit l.tally outer) :
    Stacked limit (Machine.outermost l outer).tally [] := by
  induction outer generalizing l with
  | nil => exact stacked
  | cons w outer ih =>
    cases stacked with
    | above base within below =>
      refine ih (below.change rfl ⟨below.within.depth, ?_⟩)
      change l.baseDepth = w.level.depth + 1 at base
      have inner : l.baseDepth + l.peak ≤ limit := within.peak
      have own : w.level.baseDepth + w.level.peak ≤ limit := below.within.peak
      change w.level.baseDepth + max w.level.peak (w.level.frames.length + l.peak) ≤ limit
      rw [Level.depth] at base
      omega

theorem ended {l : Level} {w : Waiting} (stacked : Stacked limit l.tally (w :: outer)) :
    Stacked limit (Machine.peakBelow w.level l).tally outer ∧ w.level.depth < limit := by
  cases stacked with
  | above base within below =>
    change l.baseDepth = w.level.depth + 1 at base
    have deepest : l.baseDepth + l.frames.length ≤ limit := within.depth
    have inner : l.baseDepth + l.peak ≤ limit := within.peak
    have own : w.level.baseDepth + w.level.peak ≤ limit := below.within.peak
    refine ⟨below.change rfl ⟨below.within.depth, ?_⟩, by omega⟩
    change w.level.baseDepth + max w.level.peak (w.level.frames.length + l.peak) ≤ limit
    rw [Level.depth] at base
    omega

end Stacked

/-- What is within the limit of calls, and goes beyond it only from a level that is at the limit. -/
inductive Transition.KeepsCalls (limit depth : Nat) : Transition → Prop where
  | running {m : Machine} (stacked : Stacked limit m.current.tally m.outer) :
      KeepsCalls limit depth (.running m)
  | ended {m : Machine} (stacked : Stacked limit m.current.tally m.outer) :
      KeepsCalls limit depth (.ended m)
  | failed {last : Machine} {e : RunError} (stacked : Stacked limit last.current.tally last.outer)
      (calls : e.callStack.length ≤ limit)
      (full : ∀ n, e.fault = .callDepth n → n = limit ∧ depth = limit) :
      KeepsCalls limit depth (.failed last e)

section
variable {setup : Setup} {limit depth : Nat} {m : Machine}

theorem Stacked.machine (stacked : Stacked limit m.current.tally m.outer) : m.WithinCalls limit where
  depth := List.forall_mem_cons.mpr
    ⟨stacked.within.depth, fun l waits => (stacked.levelsWithin l waits).depth⟩
  peak := List.forall_mem_cons.mpr
    ⟨stacked.within.peak, fun l waits => (stacked.levelsWithin l waits).peak⟩
  levels := by
    have deepest : m.current.baseDepth + m.current.frames.length ≤ limit := stacked.within.depth
    exact Nat.le_trans stacked.levelsFit (Nat.le_trans (Nat.le_add_right _ _) deepest)

theorem Stacked.fails (stacked : Stacked limit m.current.tally m.outer) {fault : Fault}
    (node : Option Nat) (full : ∀ n, fault = .callDepth n → n = limit ∧ depth = limit) :
    (m.fail setup fault node).KeepsCalls limit depth := by
  refine .failed stacked.outermost ?_ full
  have counted := stacked.callsCounted setup.spanOf
  have deepest : m.current.depth ≤ limit := stacked.within.depth
  exact Nat.le_trans (Nat.le_add_right _ m.outer.length) (counted ▸ deepest)

theorem Stacked.course {a : Account} {bound : Nat} {t : Transition}
    (stacked : Stacked setup.limits.maxCallDepth a.level a.outer) (course : Course setup a bound t)
    (full : setup.limits.maxCallDepth ≤ a.level.depth → depth = setup.limits.maxCallDepth) :
    t.KeepsCalls setup.limits.maxCallDepth depth := by
  have deepest : a.level.baseDepth + a.level.calls ≤ setup.limits.maxCallDepth := stacked.within.depth
  have peak := stacked.within.peak
  cases course with
  | @stays m calls peak' same fewer low =>
    obtain ⟨-, level, outer⟩ := Account.mk.inj same
    refine .running ?_
    rw [level, outer]
    refine stacked.change rfl ⟨?_, ?_⟩
    · change a.level.baseDepth + calls ≤ _
      omega
    · change a.level.baseDepth + peak' ≤ _
      omega
  | @calls m same room =>
    obtain ⟨-, level, outer⟩ := Account.mk.inj same
    change a.level.baseDepth + a.level.calls < _ at room
    refine .running ?_
    rw [level, outer]
    refine stacked.change rfl ⟨?_, ?_⟩
    · change a.level.baseDepth + (a.level.calls + 1) ≤ _
      omega
    · change a.level.baseDepth + max a.level.peak (a.level.calls + 1) ≤ _
      omega
  | @starts m w same waits _ room =>
    obtain ⟨-, level, outer⟩ := Account.mk.inj same
    refine .running ?_
    rw [level, outer]
    refine .above ?_ ⟨room, room⟩ (waits ▸ stacked)
    exact congrArg (fun t : Tally => t.depth + 1) waits.symm
  | @fails m last e fault node same failed cause =>
    obtain ⟨-, level, outer⟩ := Account.mk.inj same
    rw [← failed]
    refine Stacked.fails (level ▸ outer ▸ stacked) node fun n deep => ?_
    rcases cause with other | ⟨same, beyond⟩
    · exact (other (deep ▸ trivial)).elim
    · exact ⟨Fault.callDepth.inj (deep.symm.trans same), full beyond⟩

end

namespace Machine

variable {setup : Setup} {m : Machine}

theorem limitNoDepth {limits : Limits} {fault : Fault} (beyond : m.overLimit? limits = some fault)
    (n : Nat) : fault ≠ .callDepth n := by
  unfold overLimit? overLimit?.overStack at beyond
  repeat' split at beyond
  all_goals cases beyond
  all_goals simp

theorem endLevelKeeps (stacked : Stacked setup.limits.maxCallDepth m.current.tally m.outer)
    (depth : Nat) : (m.endLevel setup).KeepsCalls setup.limits.maxCallDepth depth := by
  cases waiting : m.outer with
  | nil =>
    simp only [endLevel, waiting]
    exact .ended stacked
  | cons w outer =>
    rw [waiting] at stacked
    obtain ⟨below, room⟩ := stacked.ended
    -- The level that ends has shown that there is room for one above the level that goes on.
    exact Stacked.course below (endLevelCourse setup waiting) fun full =>
      absurd (Nat.lt_of_lt_of_le room full) (Nat.lt_irrefl _)

theorem stepKeeps (stacked : Stacked setup.limits.maxCallDepth m.current.tally m.outer) :
    (m.step setup).KeepsCalls setup.limits.maxCallDepth m.current.depth := by
  have full (beyond : setup.limits.maxCallDepth ≤ m.current.depth) :
      m.current.depth = setup.limits.maxCallDepth :=
    Nat.le_antisymm stacked.within.depth beyond
  have course := stepCourse setup m
  generalize m.step setup = t at course ⊢
  generalize m.executes setup = executes at course
  cases course with
  | ends => exact endLevelKeeps stacked _
  | returns _ =>
    exact Stacked.course stacked
      (returnFromCourse setup (m.withStack (⟨.none, none⟩ :: m.current.stack)) 0) full
  | refused beyond =>
    exact Stacked.fails (m := { m with steps := m.steps + 1 }) stacked none fun n deep =>
      (limitNoDepth beyond n deep).elim
  | exits => exact endLevelKeeps (m := { m with steps := m.steps + 1 }) stacked _
  | goes course => exact Stacked.course stacked course full

theorem runKeeps (fuel : Nat)
    (stacked : Stacked setup.limits.maxCallDepth m.current.tally m.outer) :
    Stacked setup.limits.maxCallDepth (m.run setup fuel).machine.current.tally
        (m.run setup fuel).machine.outer ∧
      ∀ last e, m.run setup fuel = .failed last e → ∃ before n, m.run setup before = .running n ∧
        n.step setup = .failed last e ∧
        (n.step setup).KeepsCalls setup.limits.maxCallDepth n.current.depth := by
  induction fuel generalizing m with
  | zero => exact ⟨stacked, fun last e failed => by cases failed⟩
  | succ fuel ih =>
    have keeps := stepKeeps stacked
    rw [run]
    cases stepped : m.step setup with
    | running next =>
      rw [stepped] at keeps
      cases keeps with
      | running stacked =>
        obtain ⟨kept, raised⟩ := ih stacked
        refine ⟨kept, fun last e failed => ?_⟩
        obtain ⟨before, n, reached, fails, keeps⟩ := raised last e failed
        refine ⟨before + 1, n, ?_, fails, keeps⟩
        rw [run, stepped]
        exact reached
    | ended last =>
      rw [stepped] at keeps
      cases keeps with
      | ended stacked => exact ⟨stacked, fun last e failed => by cases failed⟩
    | failed last e =>
      rw [stepped] at keeps
      cases keeps with
      | failed stacked calls full =>
        refine ⟨stacked, fun last' e' failed => ?_⟩
        cases failed
        exact ⟨0, m, rfl, stepped, stepped ▸ .failed stacked calls full⟩

end Machine

/-- Whatever code runs, no level of the run goes deeper than the limit of calls, with the levels below
it counted, nor do the calls that a failure tells of; and a run fails for the limit only from where it
has been reached. -/
theorem callsBounded (setup : Setup) (m : Machine) (code : Code) (fuel : Nat) :
    ((m.load code).run setup fuel).machine.WithinCalls setup.limits.maxCallDepth ∧
    ∀ last e, (m.load code).run setup fuel = .failed last e →
      e.callStack.length ≤ setup.limits.maxCallDepth ∧
      ∀ limit, e.fault = .callDepth limit → limit = setup.limits.maxCallDepth ∧
        ∃ before n, (m.load code).run setup before = .running n ∧
          n.step setup = .failed last e ∧ n.current.depth = setup.limits.maxCallDepth := by
  have loaded : Stacked setup.limits.maxCallDepth (m.load code).current.tally (m.load code).outer :=
    .lowest rfl ⟨Nat.zero_le _, Nat.zero_le _⟩
  obtain ⟨stacked, raised⟩ := Machine.runKeeps fuel loaded
  refine ⟨stacked.machine, fun last e failed => ?_⟩
  obtain ⟨before, n, reached, fails, keeps⟩ := raised last e failed
  rw [fails] at keeps
  cases keeps with
  | failed _ calls full =>
    exact ⟨calls, fun limit deep =>
      ⟨(full limit deep).1, before, n, reached, fails, (full limit deep).2⟩⟩

-- An argument whose value is a call with an argument of its own.
def argumentInside : Code :=
  [.mk .call (.list [.tuple .null (.code
    [.mk .call (.list [.tuple .null (.code [.mk .pushNone .null none])]) none])]) none]

-- Two levels wait for one another here, which a limit of one call does not allow.
example : ∃ last e, (Machine.new.load argumentInside).run ⟨⟨1, none, 10000⟩, [], none, true⟩ 2 =
    .failed last e ∧ e.fault = .callDepth 1 :=
  ⟨_, _, rfl, rfl⟩

end Quill
