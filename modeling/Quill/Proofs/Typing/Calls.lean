import Quill.Proofs.Typing.Context

/-! Callers that are served. What a call, an object literal or a level that ends does next either
gives a waiting caller its value, or leaves it waiting, or fails for no fault of the code. -/
namespace Quill

variable {P : Whole} {K : List Caller} {m : Machine} {a : Caller} {main : Bool}
  {points : Nat → Point} {above below : List Cell} {s : List Known} {b : Nat}

theorem bindAnswer {x : Except ε α} {f : α → Except ε β} {b : β} (given : x >>= f = .ok b) :
    ∃ a, x = .ok a ∧ f a = .ok b := by
  cases x with
  | error _ => cases given
  | ok a => exact ⟨a, rfl, given⟩

theorem Below.called {h : ScopeHeap} {f : Frame} {frames : List Frame} {outer : List Waiting}
    (rest : Below P h K main below (f :: frames) outer) :
    ∃ a K' main' points above below' s b, K = a :: K' ∧ main = false ∧ below = a.stack ∧
      frames = a.frames ∧ outer = a.outer ∧ Caller.Waits P h a main' points above below' s b ∧
      Below P h K' main' below' a.frames a.outer ∧ f.routine = a.routine ∧ f.returnIp = a.ip + 1 ∧
      f.scope = a.scope ∧ f.stackBase = a.stack.length ∧ a.tail = none := by
  generalize calls : f :: frames = all at rest
  cases rest with
  | program _ => cases calls
  | call waits rest routine returnIp scope height stays =>
    cases calls
    exact ⟨_, _, _, _, _, _, _, _, rfl, rfl, rfl, rfl, rfl, waits, rest, routine, returnIp, scope,
      height, stays⟩
  | level _ _ _ _ _ _ _ _ _ => cases calls

def Level.entered (l : Level) (c : Closure) (scope : Nat) (frames : List Frame) : Level :=
  { l with
    scope := scope, routine := c.body, ip := 0, frames := frames, peak := max l.peak frames.length }

theorem enteredFits {c : Closure} {frames : List Frame} (called : c.Sound) (scope : Nat)
    (waiting : Below P m.scopes K false below frames m.outer) (stack : m.current.stack = below)
    (cells : CellsSound m.current.stack) (scopes : m.scopes.Sound) (clean : m.diagnostics = []) :
    Machine.Fit P { m with current := m.current.entered c scope frames } K := by
  obtain ⟨points, typing⟩ := called.body.2.typing
  refine ⟨false, points, .start, [], below, ?_⟩
  exact
    { stands := ⟨typing, nofun, nofun⟩
      here := typing.start
      stack := stack
      holds := .nil
      below := waiting
      cells := cells
      scopes := scopes
      clean := clean }

namespace Machine.Serving

variable (serving : m.Serving P a K main points above below s b)

include serving

theorem fails {fault : Fault} (node : Option Nat) (well : ¬ fault.Malformed) :
    (m.fail P.setup fault node).Serves P a K := by
  obtain ⟨last, e, same, well⟩ := failsWell P.setup node serving.clean well
  rw [same]
  exact .failed well

theorem withScopes {h : ScopeHeap} (grows : m.scopes.Grows h) (sound : h.Sound) :
    Machine.Serving P { m with scopes := h } a K main points above below s b :=
  { serving with
    waits := serving.waits.grow grows
    rest := serving.rest.grow grows
    scopes := sound }

theorem evaluate {r : Routine} {pending : Pending} (typed : Typed none r.code)
    (scope : Nat) (taken : List Cell) (stack : m.current.stack = taken ++ a.stack)
    (cells : CellsSound m.current.stack)
    (waits : pending.Waits P.setup m.current a.tail taken) :
    (m.evaluate P.setup r scope pending).Serves P a K := by
  unfold Machine.evaluate
  by_cases deep : P.setup.limits.maxCallDepth < m.current.depth + 1
  · rw [if_pos deep]
    exact serving.fails none id
  rw [if_neg deep]
  obtain ⟨points', typing⟩ := typed.typing
  have waiting : Below P m.scopes (a :: K) false [] [] (⟨m.current, pending⟩ :: m.outer) := by
    rw [serving.outer]
    exact .level serving.waits serving.rest serving.routine serving.ip serving.scope
      serving.frames stack cells waits
  exact .waits ⟨false, points', .start, [], [],
    { stands := ⟨typing, nofun, nofun⟩
      here := typing.start
      stack := rfl
      holds := .nil
      below := waiting
      cells := nofun
      scopes := serving.scopes
      clean := serving.clean }⟩

theorem gives {v : Value} (sound : v.Sound) (stack : m.current.stack = a.stack)
    (cells : CellsSound m.current.stack) (stays : a.tail = none) : (m.push v m.current.stack).Serves P a K := by
  obtain ⟨stands, next, split, holds⟩ := serving.waits
  refine .done ⟨main, points, ⟨.value :: s, b⟩, ⟨v, m.current.source?⟩ :: above, below, ?_⟩
    (.back stays ⟨⟨_, congrArg _ stack⟩, serving.scope, serving.routine,
      congrArg (· + 1) serving.ip, serving.frames, serving.outer⟩)
  exact
    { stands := by
        change Stands P m.scopes main m.current.routine points m.current.scope b
        rw [serving.routine, serving.scope]
        exact stands
      here := by
        change points (m.current.ip + 1) = _
        rw [serving.ip]
        exact next
      stack := congrArg _ (stack.trans split)
      holds := .cons trivial holds
      below := by
        change Below P m.scopes K main below m.current.frames m.outer
        rw [serving.frames, serving.outer]
        exact serving.rest
      cells := List.forall_mem_cons.mpr ⟨sound, cells⟩
      scopes := serving.scopes
      clean := serving.clean }

theorem pushFrame {c : Closure} (called : c.Sound) (scope : Nat)
    (stack : m.current.stack = a.stack) (cells : CellsSound m.current.stack)
    (stays : a.tail = none) : (m.pushFrame P.setup c scope).Serves P a K := by
  unfold Machine.pushFrame
  by_cases deep : P.setup.limits.maxCallDepth < m.current.depth + 1
  · simp only [if_pos deep]
    exact serving.fails none id
  simp only [if_neg deep]
  have waiting : Below P m.scopes (a :: K) false a.stack
      (⟨m.current.routine, m.current.ip + 1, m.current.scope, m.current.stack.length,
        m.current.source?, c⟩ :: m.current.frames) m.outer := by
    rw [serving.frames, serving.outer]
    exact .call serving.waits serving.rest serving.routine (congrArg (· + 1) serving.ip)
      serving.scope (congrArg _ stack) stays
  exact .waits (enteredFits called scope waiting stack cells serving.scopes serving.clean)

theorem invoke {c : Closure} (called : c.Sound) (scope : Nat) (stack : m.current.stack = a.stack)
    (cells : CellsSound m.current.stack) (takes : a.tail = m.current.takes P.setup c) :
    (m.invoke P.setup c scope).Serves P a K := by
  -- A call that takes the place of its caller has nothing on the stack above the caller's own.
  cases calls : m.current.frames with
  | nil =>
    rw [invokeFree scope calls]
    refine serving.pushFrame called scope stack cells ?_
    rw [takes, Level.takes, Level.reuses, isTailCall, calls, Bool.and_false]
    rfl
  | cons f frames =>
    rw [invokeCalled scope calls, ← Level.reuses]
    unfold Level.takes at takes
    by_cases reuses : m.current.reuses P.setup c
    · rw [if_pos reuses]
      rw [if_pos reuses] at takes
      have tail := (Bool.and_eq_true_iff.mp reuses).2
      rw [tailCallOf calls] at tail
      obtain ⟨next, found, op⟩ := returnsCases (Bool.and_eq_true_iff.mp tail).2
      obtain ⟨stands, here, split, holds⟩ := serving.waits
      rw [serving.routine, serving.ip] at found
      -- The return behind the call finds the result alone, so the caller has left nothing below it.
      have effect := (stands.typing.fits _ _ found).effect (by rw [op]; rfl) (by rw [op]; decide)
      obtain ⟨k, alone⟩ := effect.ofReturn op
      rw [here] at alone
      cases alone
      cases holds
      have rest := serving.rest
      rw [← serving.frames, calls] at rest
      obtain ⟨a', K', main', points', above', below', s', b', rfl, rfl, rfl, same, same', waits,
        rest, routine, returnIp, scope', height, stays⟩ := rest.called
      have waiting : Below P m.scopes (a' :: K') false a'.stack
          ({ f with callSite := m.current.source? } :: frames) m.outer := by
        rw [same, serving.outer, same']
        exact .call waits rest routine returnIp scope' height stays
      have length : (frames.length + 1) = a.frames.length := by
        rw [← serving.frames, calls]
        rfl
      exact .done
        (enteredFits called scope waiting (stack.trans split) cells serving.scopes serving.clean)
        (.replaced takes rfl length serving.outer)
    · rw [if_neg reuses]
      rw [if_neg reuses] at takes
      exact serving.pushFrame called scope stack cells takes

omit serving in
theorem fillParams {c : Closure} (called : c.Sound) (scope : Nat)
    {slots : List (ClosureParam × Option Value)} (left : List.Forall₂ (SlotAlike Nested) slots slots)
    {m : Machine} (serving : m.Serving P a K main points above below s b)
    (stack : m.current.stack = a.stack) (cells : CellsSound m.current.stack)
    (takes : a.tail = m.current.takes P.setup c) :
    (m.fillParams P.setup c scope slots).Serves P a K := by
  induction slots generalizing m with
  | nil => exact serving.invoke called scope stack cells takes
  | cons slot rest ih =>
    obtain ⟨⟨param, value⟩, others⟩ := List.forall₂_cons.mp left
    obtain ⟨p, v⟩ := slot
    cases v with
    | some v =>
      cases value with
      | some sound =>
        exact ih others (serving.withScopes (m.scopes.growsDefine scope p.name v)
          (ScopeHeap.defineAlike scope p.name sound serving.scopes)) stack cells takes
    | none =>
      rw [Machine.fillParams]
      cases default : p.default with
      | none => exact serving.fails none id
      | some r =>
        have nested := soundOption param.default default
        exact serving.evaluate nested.2 scope [] stack cells (.default called others takes)

theorem callClosure {c : Closure} {args : List Argument} (called : c.Sound)
    (given : List.Forall₂ (Argument.Alike Nested) args args) (stack : m.current.stack = a.stack)
    (cells : CellsSound m.current.stack) (takes : a.tail = m.current.takes P.setup c) :
    (m.callClosure P.setup c args).Serves P a K := by
  have inside := serving.withScopes (m.scopes.growsChild c.scope)
    (ScopeHeap.childAlike c.scope serving.scopes).2
  unfold Machine.callClosure
  cases matched : argumentSlots (c.params.map (·.name)) args with
  | ok slots =>
    have slotsSound := soundAnswer (argumentSlotsAlike (c.params.map (·.name)) given) matched
    exact fillParams called _ (zipAlike called.params slotsSound) inside stack cells takes
  | error fault => exact inside.fails none (placeFails matched).sound

theorem callIntrinsic {args : List Argument} (i : Intrinsic) (stack : m.current.stack = a.stack)
    (cells : CellsSound m.current.stack) (stays : a.tail = none) :
    (m.callIntrinsic P.setup i args).Serves P a K := by
  unfold Machine.callIntrinsic
  dsimp only
  split
  · rename_i r answer
    obtain ⟨slots, -, answer⟩ := bindAnswer answer
    obtain ⟨values, -, answer⟩ := bindAnswer answer
    have printed : Machine.Serving P { m with output := m.output ++ r.printed } a K main points
        above below s b := { serving with }
    exact printed.gives (.plain _ (Intrinsic.callPlain answer)) stack cells stays
  · rename_i fault refused
    exact serving.fails none (Intrinsic.answerFails refused).sound

theorem callTop {callee : Cell} {args : List Argument}
    (given : List.Forall₂ (Argument.Alike Nested) args args)
    (stack : m.current.stack = callee :: a.stack) (cells : CellsSound m.current.stack)
    (takes : a.tail = m.current.takesFor P.setup callee.value) :
    (m.callTop P.setup args).Serves P a K := by
  rw [stack] at cells
  obtain ⟨sound, cells⟩ := List.forall_mem_cons.mp cells
  have taken : Machine.Serving P (m.withStack a.stack) a K main points above below s b :=
    { serving with }
  unfold Machine.callTop
  simp only [stack]
  cases called : callee.value with
  | function c =>
    rw [called] at sound takes
    cases sound with
    | plain _ plain => exact plain.elim
    | function closure => exact taken.callClosure closure given rfl cells takes
  | intrinsic i =>
    rw [called] at takes
    exact taken.callIntrinsic i rfl cells takes
  | _ => exact taken.fails none id

theorem nextArgument {callee : Cell} {done : List Argument} {left : List Operand}
    (given : List.Forall₂ (Argument.Alike Nested) done done) (typed : ∀ x ∈ left, ArgumentTyped x)
    (stack : m.current.stack = callee :: a.stack) (cells : CellsSound m.current.stack)
    (takes : a.tail = m.current.takesFor P.setup callee.value) :
    (m.nextArgument P.setup done left).Serves P a K := by
  cases left with
  | nil => exact serving.callTop given stack cells takes
  | cons x rest =>
    obtain ⟨⟨name, code, rfl, argument⟩, others⟩ := List.forall_mem_cons.mp typed
    exact serving.evaluate argument m.current.scope [callee] stack cells
      (.argument given others takes)

theorem nextProperty {index : Nat} {entries : List Entry} {left : List Operand}
    (given : EntriesAlike Nested entries entries) (typed : ∀ x ∈ left, PropertyTyped x)
    (stack : m.current.stack = a.stack) (cells : CellsSound m.current.stack)
    (stays : a.tail = none) : (m.nextProperty P.setup index entries left).Serves P a K := by
  cases left with
  | nil =>
    have counted : Machine.Serving P { m with nextId := m.nextId + 1 } a K main points above below
        s b := { serving with }
    exact counted.gives (.object _ given) stack cells stays
  | cons x rest =>
    obtain ⟨⟨key, value, rfl, keys, values⟩, others⟩ := List.forall_mem_cons.mp typed
    exact serving.evaluate keys m.current.scope [] stack cells
      (.objectKey given values others stays)

theorem resume {v : Value} {pending : Pending} {taken : List Cell} (sound : v.Sound)
    (stack : m.current.stack = taken ++ a.stack) (cells : CellsSound m.current.stack)
    (waits : pending.Waits P.setup m.current a.tail taken) :
    (m.resume P.setup v pending).Serves P a K := by
  cases waits with
  | argument given left takes =>
    exact serving.nextArgument (List.rel_append given (.cons ⟨rfl, sound⟩ .nil)) left stack cells
      takes
  | @default c scope name rest called left takes =>
    exact fillParams called scope left (serving.withScopes (m.scopes.growsDefine scope name v)
      (ScopeHeap.defineAlike scope name sound serving.scopes)) stack cells takes
  | objectKey given typed left stays =>
    unfold Machine.resume
    cases key : v.key? with
    | none => exact serving.fails none (Fault.OfValues.key v).sound
    | some key =>
      exact serving.evaluate typed m.current.scope [] stack cells
        (.objectValue given left stays)
  | objectValue given left stays =>
    exact serving.nextProperty (given.set _ sound) left stack cells stays

end Machine.Serving

end Quill
