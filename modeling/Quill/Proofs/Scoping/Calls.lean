import Quill.Machine.Step
import Quill.Proofs.Scoping.Context
import Quill.Proofs.Typing.Calls

/-! Calls, object literals and levels that end, on machines whose variables are declared. A function
runs in a new scope inside the one that it was made in, where its parameters are defined. -/
namespace Quill

theorem placedSlots {P : Value → Prop} {params : List String} {position : Nat}
    {slots slots' : List (Option Value)} {args : List Argument} (given : ∀ a ∈ args, P a.value)
    (before : ∀ s ∈ slots, ∀ v, s = some v → P v)
    (placed : placeArguments params position slots args = .ok slots') :
    slots'.length = slots.length ∧ ∀ s ∈ slots', ∀ v, s = some v → P v := by
  induction args generalizing position slots with
  | nil =>
    cases placed
    exact ⟨rfl, before⟩
  | cons a rest ih =>
    obtain ⟨first, others⟩ := List.forall_mem_cons.mp given
    rw [placeArguments] at placed
    have place {index next : Nat} (placed : (if index < slots.length then
        placeArguments params next (slots.set index (some a.value)) rest
        else .error (.tooManyArguments params.length (index + 1))) = .ok slots') :
        slots'.length = slots.length ∧ ∀ s ∈ slots', ∀ v, s = some v → P v := by
      split at placed
      · obtain ⟨length, values⟩ := ih others (fun s inside v same => by
          rcases List.mem_or_eq_of_mem_set inside with inside | rfl
          · exact before s inside v same
          · cases same
            exact first) placed
        exact ⟨length.trans (List.length_set ..), values⟩
      · cases placed
    split at placed
    · exact place placed
    · split at placed
      · exact place placed
      · cases placed

theorem argumentSlotsGiven {P : Value → Prop} {params : List String} {slots : List (Option Value)}
    {args : List Argument} (given : ∀ a ∈ args, P a.value)
    (placed : argumentSlots params args = .ok slots) :
    slots.length = params.length ∧ ∀ s ∈ slots, ∀ v, s = some v → P v := by
  obtain ⟨length, values⟩ := placedSlots given (fun s inside v same => by
    cases List.eq_of_mem_replicate inside
    cases same) placed
  exact ⟨length.trans List.length_replicate, values⟩

theorem Fault.OfValues.defined {fault : Fault} (fails : fault.OfValues) : ¬ fault.Undefined := by
  cases fails <;> exact id

section
variable {l : Level} {params : List Operand} {body : Code} {outer : List (List String)}
  {given : List String}

theorem closureFills {index : Nat} {ps : List ClosureParam}
    (made : closureParams l index params = .ok ps) (runs : ParamsRun outer given params body) :
    FillsIn outer body given ps := by
  induction params generalizing index given ps with
  | nil =>
    cases made
    exact runs.2
  | cons x rest ih =>
    obtain ⟨defaults, bodies⟩ := runs
    cases x with
    | tuple a b =>
      unfold closureParams at made
      cases a with
      | str n =>
        simp only [Operand.text?] at made
        obtain ⟨ps', others, made⟩ := bindAnswer made
        cases made
        refine ⟨fun r same => ?_, ih others ⟨fun slot c found => ?_, ?_⟩⟩
        · cases b with
          | code c =>
            cases same
            exact defaults 0 c rfl
          | _ => cases same
        · have run := defaults (slot + 1) c found
          simpa only [List.map_cons, List.take_succ_cons, List.reverse_cons, List.append_assoc,
            List.singleton_append, Operand.paramName] using run
        · simpa only [List.map_cons, List.reverse_cons, List.append_assoc, List.singleton_append,
            Operand.paramName] using bodies
      | _ => cases made
    | _ => cases made

theorem closureRuns {id : Nat} {c : Closure}
    (made : closureOf l id (.tuple (.list params) (.code body)) = .ok c)
    (runs : ParamsRun outer [] params body) : c.RunsIn outer ∧ c.scope = l.scope := by
  obtain ⟨ps, parameters, made⟩ := bindAnswer made
  cases made
  exact ⟨closureFills parameters runs, rfl⟩

end

namespace Machine.Ready

variable {m : Machine} {names : List (List String)} (setup : Setup)

theorem evaluates {r : Routine} {scope : Nat} {pending : Pending} {inner : List (List String)}
    (ready : m.Ready names) (visible : m.scopes.Shows scope inner) (runs : RunsIn inner r.code)
    (waits : pending.Scoped m.scopes names) : (m.evaluate setup r scope pending).Scoped := by
  unfold Machine.evaluate
  by_cases deep : setup.limits.maxCallDepth < m.current.depth + 1
  · rw [if_pos deep]
    exact fails setup none id
  · rw [if_neg deep]
    obtain ⟨last, runs⟩ := runs
    have piece := runs.piece scenesFold.jumpsOnly
    refine .running ⟨⟨ready.heap, ?_, nofun⟩, ⟨inner, []⟩, ⟨visible, last, piece.stands⟩, .cells nofun⟩
    exact List.forall_mem_cons.mpr
      ⟨⟨names, ⟨ready.goes, ready.cells, ready.frames⟩, waits⟩, ready.outer⟩

theorem enters {c : Closure} {scope : Nat} {frames : List Frame} {inner : List (List String)}
    (ready : m.Ready names) (visible : m.scopes.Shows scope inner) (runs : RunsIn inner c.body.code)
    (calls : ∀ f ∈ frames, f.Scoped m.scopes) : (m.enter c scope frames).Scoped := by
  obtain ⟨last, runs⟩ := runs
  have piece := runs.piece scenesFold.jumpsOnly
  exact .running ⟨⟨ready.heap, ready.outer, calls⟩, ⟨inner, []⟩, ⟨visible, last, piece.stands⟩,
    .cells ready.cells⟩

theorem pushesFrame {c : Closure} {scope : Nat} {inner : List (List String)}
    (ready : m.Ready names) (visible : m.scopes.Shows scope inner)
    (runs : RunsIn inner c.body.code) : (m.pushFrame setup c scope).Scoped := by
  unfold Machine.pushFrame
  by_cases deep : setup.limits.maxCallDepth < m.current.depth + 1
  · simp only [if_pos deep]
    exact fails setup none id
  · simp only [if_neg deep]
    exact ready.enters visible runs (List.forall_mem_cons.mpr ⟨⟨names, ready.goes⟩, ready.frames⟩)

theorem invokes {c : Closure} {scope : Nat} {inner : List (List String)}
    (ready : m.Ready names) (visible : m.scopes.Shows scope inner)
    (runs : RunsIn inner c.body.code) : (m.invoke setup c scope).Scoped := by
  -- A call in the place of its caller returns where the caller would have.
  have frames := ready.frames
  unfold Machine.invoke
  dsimp only
  split
  · rename_i f outer calls
    rw [calls] at frames
    obtain ⟨first, others⟩ := List.forall_mem_cons.mp frames
    split
    · exact ready.enters visible runs (List.forall_mem_cons.mpr ⟨first, others⟩)
    · exact ready.pushesFrame setup visible runs
  · exact ready.pushesFrame setup visible runs

theorem fills {c : Closure} {scope : Nat} {outer : List (List String)} {given : List String}
    {left : List (ClosureParam × Option Value)} (ready : m.Ready names)
    (visible : m.scopes.Shows scope (given :: outer))
    (runs : FillsIn outer c.body.code given (left.map (·.1)))
    (values : ∀ x ∈ left, ∀ v, x.2 = some v → v.Scoped m.scopes) :
    (m.fillParams setup c scope left).Scoped := by
  induction left generalizing m given with
  | nil => exact ready.invokes setup visible runs
  | cons slot rest ih =>
    obtain ⟨p, v⟩ := slot
    obtain ⟨first, others⟩ := List.forall_mem_cons.mp values
    cases v with
    | some v =>
      have keeps := m.scopes.keepsDefine scope p.name v
      exact ih (ready.withScopes keeps (ready.heap.define ((first v rfl).keeps keeps)))
        (visible.define (List.Subset.refl _)) runs.2
        fun x inside w same => (others x inside w same).keeps keeps
    | none =>
      rw [Machine.fillParams]
      cases default : p.default with
      | none => exact fails setup none id
      | some r =>
        exact ready.evaluates setup visible (runs.1 r default) (.default visible runs.2 others)

theorem callsClosure {c : Closure} {args : List Argument} (ready : m.Ready names)
    (called : c.Scoped m.scopes) (given : ∀ a ∈ args, a.value.Scoped m.scopes) :
    (m.callClosure setup c args).Scoped := by
  obtain ⟨outer, visible, runs⟩ := called
  have keeps := m.scopes.keepsChild c.scope
  unfold Machine.callClosure
  cases matched : argumentSlots (c.params.map (·.name)) args with
  | error fault => exact fails setup none (placeFails matched).defined
  | ok slots =>
    obtain ⟨length, values⟩ := argumentSlotsGiven given matched
    rw [List.length_map] at length
    refine fills setup (ready.withScopes keeps ready.heap.child) visible.child ?_ ?_
    · rw [List.map_fst_zip (Nat.le_of_eq length.symm)]
      exact runs
    · intro x inside v same
      exact (values x.2 (List.of_mem_zip inside).2 v same).keeps keeps

theorem callsIntrinsic {args : List Argument} (ready : m.Ready names) (i : Intrinsic) :
    (m.callIntrinsic setup i args).Scoped := by
  unfold Machine.callIntrinsic
  dsimp only
  split
  · rename_i r answer
    obtain ⟨slots, -, answer⟩ := bindAnswer answer
    obtain ⟨values, -, answer⟩ := bindAnswer answer
    have printed : Machine.Ready { m with output := m.output ++ r.printed } names :=
      ⟨⟨ready.heap, ready.outer, ready.frames⟩, ready.goes, ready.cells⟩
    exact printed.pushes (plainScoped (Intrinsic.callPlain answer)) ready.cells
  · rename_i fault refused
    exact fails setup none (Intrinsic.answerFails refused).defined

theorem callsTop {args : List Argument} (ready : m.Ready names)
    (given : ∀ a ∈ args, a.value.Scoped m.scopes) : (m.callTop setup args).Scoped := by
  have cells := ready.cells
  unfold Machine.callTop
  cases stack : m.current.stack with
  | nil => exact fails setup none id
  | cons callee rest =>
    rw [stack] at cells
    obtain ⟨first, others⟩ := List.forall_mem_cons.mp cells
    have taken := ready.withStack others
    obtain ⟨v, source⟩ := callee
    cases v with
    | function c =>
      exact taken.callsClosure setup (first c (by rw [Value.closures]; exact List.mem_singleton_self c))
        given
    | intrinsic i => exact taken.callsIntrinsic setup i
    | _ => exact fails setup none id

theorem argues {done : List Argument} {left : List Operand} (ready : m.Ready names)
    (given : ∀ a ∈ done, a.value.Scoped m.scopes) (runs : ∀ x ∈ left, ArgumentRuns names x) :
    (m.nextArgument setup done left).Scoped := by
  unfold Machine.nextArgument
  split
  · exact ready.callsTop setup given
  · obtain ⟨first, others⟩ := List.forall_mem_cons.mp runs
    exact ready.evaluates setup ready.goes.1 (first _ _ rfl) (.argument given others)
  · exact ready.skips setup _ _

theorem builds {index : Nat} {entries : List Entry} {left : List Operand} (ready : m.Ready names)
    (given : EntriesScoped m.scopes entries) (runs : ∀ x ∈ left, PropertyRuns names x) :
    (m.nextProperty setup index entries left).Scoped := by
  unfold Machine.nextProperty
  split
  · have counted : Machine.Ready { m with nextId := m.nextId + 1 } names :=
      ⟨⟨ready.heap, ready.outer, ready.frames⟩, ready.goes, ready.cells⟩
    exact counted.pushes (by rw [Value.Scoped, Value.closures]; exact given) ready.cells
  · obtain ⟨first, others⟩ := List.forall_mem_cons.mp runs
    obtain ⟨keys, values⟩ := first _ _ rfl
    exact ready.evaluates setup ready.goes.1 keys (.objectKey given values others)
  · exact ready.skips setup _ _

theorem resumes {v : Value} {pending : Pending} (ready : m.Ready names) (value : v.Scoped m.scopes)
    (waits : pending.Scoped m.scopes names) : (m.resume setup v pending).Scoped := by
  cases waits with
  | argument given runs =>
    refine ready.argues setup (List.forall_mem_append.mpr ⟨given, ?_⟩) runs
    exact List.forall_mem_singleton.mpr value
  | @default c scope name rest outer given visible fills values =>
    have keeps := m.scopes.keepsDefine scope name v
    exact Machine.Ready.fills setup (ready.withScopes keeps (ready.heap.define (value.keeps keeps)))
      (visible.define (List.Subset.refl _)) fills
      fun x inside w same => (values x inside w same).keeps keeps
  | objectKey known runs others =>
    unfold Machine.resume
    cases key : v.key? with
    | none => exact fails setup none id
    | some key =>
      exact ready.evaluates setup ready.goes.1 runs (.objectValue known others)
  | objectValue known others =>
    refine ready.builds setup (fun c inside => ?_) others
    rcases List.mem_append.mp (setEntryClosures _ _ _ inside) with inside | inside
    · exact known c inside
    · exact value c inside

end Machine.Ready

end Quill
