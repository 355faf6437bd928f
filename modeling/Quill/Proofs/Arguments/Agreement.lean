import Quill.Proofs.Arguments.Filling
import Quill.Proofs.Arguments.Matched

/-! Calls and their checks take arguments alike. Where nothing is reported for a call, each
parameter gets the value of the argument that was checked against its type, and the defaults that
are evaluated are those of the parameters without an argument. -/
namespace Quill

def argTypes (params : List TyParam) (names : List (Option String)) : List Ty :=
  (matchParams params names).map fun m => (argType params names.length m).1

structure Assigned (params : List TyParam) (types : List Ty) (args : List Argument)
    (slots : List (Option Value)) : Prop where
  length : slots.length = params.length
  given (k : Nat) (a : Argument) (there : args[k]? = some a) : ∃ (i : Nat) (p : TyParam),
    (matchParams params (args.map (·.name)))[k]? = some (ArgMatch.param i) ∧
      params[i]? = some p ∧ types[k]? = some p.type ∧ slots[i]? = some (some a.value)
  own (i k l : Nat) (here : (matchParams params (args.map (·.name)))[k]? = some (ArgMatch.param i))
    (there : (matchParams params (args.map (·.name)))[l]? = some (ArgMatch.param i)) : k = l
  left (i : Nat) (p : TyParam) (there : params[i]? = some p)
    (unmatched : ArgMatch.param i ∉ matchParams params (args.map (·.name))) :
    slots[i]? = some none ∧ p.hasDefault = true

def Closure.Has (c : Closure) (params : List TyParam) : Prop :=
  c.params.map (fun p => (p.name, p.default.isSome)) = params.map fun p => (p.name, p.hasDefault)

/-- Calls of closures and of built-in functions with these parameters take the arguments as they
were checked, and none fails for want of an argument or a parameter. -/
structure CallsAgree (params : List TyParam) (types : List Ty) (args : List Argument) : Prop where
  closure : ∀ (setup : Setup) (m : Machine) (c : Closure), c.Has params →
    ∃ slots, Assigned params types args slots ∧ ∀ fuel,
      Fills setup c (m.scopes.child c.scope).1 { m with scopes := (m.scopes.child c.scope).2 }
        (c.params.zip slots) fuel ((m.callClosure setup c args).onward setup fuel)
  intrinsic : ∀ (setup : Setup) (m : Machine) (i : Intrinsic) (ret : Ty),
    i.signature = .function params ret →
    ∃ values, Assigned params types args (values.map some) ∧
      (∀ fault, i.call setup.broken values = .error fault → ¬ fault.OfArguments) ∧
      m.callIntrinsic setup i args =
        match i.call setup.broken values with
        | .ok r => { m with output := m.output ++ r.printed }.push r.value m.current.stack
        | .error fault => m.fail setup fault none

section
variable {params : List TyParam} {args : List Argument}

theorem Accepts.found (accepts : Accepts params (args.map (·.name))) :
    ∀ m ∈ matchArguments (params.map (·.name)) (args.map (·.name)), m.target?.isSome := by
  intro m held
  obtain ⟨i, rfl⟩ := accepts.placed m held
  rfl

theorem Accepts.assigned (accepts : Accepts params (args.map (·.name))) :
    Assigned params (argTypes params (args.map (·.name))) args
      (lastValues (params.map (·.name)) args) where
  length := by simp [lastValues]
  given k a there := by
    have inside : k < (matchParams params (args.map (·.name))).length := by
      obtain ⟨inside, -⟩ := List.getElem?_eq_some_iff.mp there
      simpa [matchLength] using inside
    obtain ⟨i, here⟩ := accepts.placed _ (List.getElem_mem inside)
    have matched := List.getElem?_eq_some_iff.mpr ⟨inside, here⟩
    have bound : i < (params.map (·.name)).length :=
      ArgMatch.allBound (List.mem_of_getElem? matched) rfl
    rw [List.length_map] at bound
    refine ⟨i, params[i], matched, by simp [bound], by simp [argTypes, matched, argType, bound], ?_⟩
    refine lastGiven there matched rfl fun l n after other target => ?_
    obtain ⟨j, rfl⟩ := accepts.placed n (List.mem_of_getElem? other)
    cases target
    exact Nat.ne_of_lt after (ArgMatch.allApart matched other)
  own _ _ _ := ArgMatch.allApart
  left i p there unmatched := by
    have bound : i < params.length := (List.getElem?_eq_some_iff.mp there).1
    refine ⟨?_, ?_⟩
    · have nothing : valuesFor i (matchParams params (args.map (·.name))) args = [] := by
        refine valuesNone fun m held target => ?_
        obtain ⟨j, rfl⟩ := accepts.placed m held
        cases target
        exact unmatched held
      simp only [matchParams] at nothing
      simp [lastValues, bound, nothing]
    · by_contra needed
      exact unmatched (accepts.complete i p there (by simpa using needed))

theorem Closure.Has.names {c : Closure} (has : c.Has params) :
    c.params.map (·.name) = params.map (·.name) := by
  simpa [Function.comp_def] using congrArg (List.map Prod.fst) has

theorem Assigned.defaulted {types : List Ty} {slots : List (Option Value)} {i : Nat} {p : TyParam}
    (assigned : Assigned params types args slots) (here : params[i]? = some p)
    (empty : slots[i]? = some none) : p.hasDefault = true := by
  refine (assigned.left i p here fun matched => ?_).2
  obtain ⟨k, there⟩ := List.getElem?_of_mem matched
  obtain ⟨inside, -⟩ := List.getElem?_eq_some_iff.mp there
  rw [matchLength, List.length_map] at inside
  obtain ⟨j, _, same, -, -, given⟩ := assigned.given k _ (List.getElem?_eq_getElem inside)
  cases Option.some.inj (there.symm.trans same)
  simp [empty] at given

theorem Assigned.closureDefaulted {types : List Ty} {slots : List (Option Value)} {c : Closure}
    (assigned : Assigned params types args slots) (has : c.Has params) :
    ∀ slot ∈ c.params.zip slots, slot.2 = none → slot.1.default.isSome := by
  intro slot held empty
  obtain ⟨i, there⟩ := List.getElem?_of_mem held
  obtain ⟨param, slotAt⟩ := List.getElem?_zip_eq_some.mp there
  have both := congrArg (·[i]?) has
  simp only [List.getElem?_map, param, Option.map_some] at both
  obtain ⟨p, here, same⟩ := Option.map_eq_some_iff.mp both.symm
  have default := assigned.defaulted here (slotAt.trans (congrArg some empty))
  rw [Prod.mk.injEq] at same
  rw [← same.2, default]

theorem Assigned.allGiven {types : List Ty} {slots : List (Option Value)}
    (assigned : Assigned params types args slots) (needed : ∀ p ∈ params, p.hasDefault = false) :
    ∃ values : List Value, slots = values.map some := by
  have every : ∀ slot ∈ slots, slot.isSome := by
    intro slot held
    by_contra empty
    obtain ⟨i, there⟩ := List.getElem?_of_mem held
    have bound : i < params.length := assigned.length ▸ (List.getElem?_eq_some_iff.mp there).1
    have default := assigned.defaulted (List.getElem?_eq_getElem bound) (by simp_all)
    simp [needed _ (List.getElem_mem bound)] at default
  refine ⟨slots.map (·.get!), (List.map_id' slots).symm.trans ?_⟩
  rw [List.map_map]
  exact List.map_congr_left fun slot held => (Option.some_get! _ (every slot held)).symm

theorem Accepts.closureAgrees (accepts : Accepts params (args.map (·.name))) (setup : Setup)
    (m : Machine) {c : Closure} (has : c.Has params) (fuel : Nat) :
    Fills setup c (m.scopes.child c.scope).1 { m with scopes := (m.scopes.child c.scope).2 }
      (c.params.zip (lastValues (params.map (·.name)) args)) fuel
      ((m.callClosure setup c args).onward setup fuel) := by
  simp only [Machine.callClosure, has.names, slotsGiven accepts.found]
  exact Machine.fillsParams (accepts.assigned.closureDefaulted has) _ fuel

end

theorem Intrinsic.callSupplied {i : Intrinsic} {broken : Option String} {values : List Value}
    {fault : Fault} (length : values.length = i.params.length)
    (refused : i.call broken values = .error fault) : ¬ fault.OfArguments := by
  unfold Intrinsic.call Intrinsic.printLines at refused
  -- The faults that are about arguments are those of calls with fewer values than parameters.
  cases i <;> (repeat' split at refused) <;> cases refused <;> first | exact id | cases length

theorem Intrinsic.signatureParams {i : Intrinsic} {params : List TyParam} {ret : Ty}
    (signature : i.signature = .function params ret) :
    params.map (·.name) = i.paramNames ∧ ∀ p ∈ params, p.hasDefault = false := by
  unfold Intrinsic.signature at signature
  cases signature
  refine ⟨by simp [paramNames, TyParam.name], fun p held => ?_⟩
  obtain ⟨q, -, rfl⟩ := List.mem_map.mp held
  rfl

section
variable {params : List TyParam} {args : List Argument}

theorem Accepts.intrinsicAgrees (accepts : Accepts params (args.map (·.name))) (setup : Setup)
    (m : Machine) {i : Intrinsic} {ret : Ty} (signature : i.signature = .function params ret) :
    ∃ values, lastValues (params.map (·.name)) args = values.map some ∧
      (∀ fault, i.call setup.broken values = .error fault → ¬ fault.OfArguments) ∧
      m.callIntrinsic setup i args =
        match i.call setup.broken values with
        | .ok r => { m with output := m.output ++ r.printed }.push r.value m.current.stack
        | .error fault => m.fail setup fault none := by
  obtain ⟨names, needed⟩ := Intrinsic.signatureParams signature
  obtain ⟨values, given⟩ := accepts.assigned.allGiven needed
  have length : i.paramNames.length = values.length := by
    rw [← names, List.length_map, ← accepts.assigned.length, given, List.length_map]
  have slots : argumentSlots i.paramNames args = .ok (values.map some) := by
    rw [← names, slotsGiven accepts.found, given]
  refine ⟨values, given, fun fault => Intrinsic.callSupplied ?_,
    Machine.callIntrinsicGiven slots length⟩
  rw [← length, Intrinsic.paramNames, List.length_map]

theorem Accepts.callsAgree (accepts : Accepts params (args.map (·.name))) :
    CallsAgree params (argTypes params (args.map (·.name))) args := by
  refine ⟨fun setup m c has => ⟨_, accepts.assigned, accepts.closureAgrees setup m has⟩,
    fun setup m i ret signature => ?_⟩
  obtain ⟨values, given, supplied, called⟩ := accepts.intrinsicAgrees setup m signature
  exact ⟨values, given ▸ accepts.assigned, supplied, called⟩

theorem Accepts.checkedAgree {span : Span} {written : List Arg} {s : BindState}
    (accepts : Accepts params (written.map (·.name)))
    (names : args.map (·.name) = written.map (·.name)) :
    CallsAgree params (matchCall span params written s).1 args := by
  have types : (matchCall span params written s).1 = argTypes params (args.map (·.name)) := by
    simp [matchCallGives, argTypes, names]
  rw [← names] at accepts
  exact types ▸ accepts.callsAgree

/-- If nothing is reported for a call, running it takes the arguments as the check did. -/
theorem quietCallsAgree {span : Span} {written : List Arg} {s : BindState}
    (quiet : (matchCall span params written s).2.diagnostics = s.diagnostics)
    (names : args.map (·.name) = written.map (·.name)) :
    CallsAgree params (matchCall span params written s).1 args :=
  (matchQuiet.mp quiet).checkedAgree names

end

-- The parameters of `fn(a: int, b?: int, c: string)`.
def secondOptional : List TyParam := [.mk "a" .int false, .mk "b" .int true, .mk "c" .string false]

-- The arguments of `f(1, c: "x")`.
def firstAndThird : List Arg :=
  [.mk none (.literal ⟨0, .start⟩ (.int 1)), .mk (some "c") (.literal ⟨1, .start⟩ (.string "x"))]

theorem firstAndThirdAgree :
    (matchCall .start secondOptional firstAndThird ⟨.new, []⟩).2.diagnostics = [] ∧
      CallsAgree secondOptional [.int, .string] [⟨none, .int 1⟩, ⟨some "c", .str "x"⟩] := by
  have quiet : (matchCall .start secondOptional firstAndThird ⟨.new, []⟩).2.diagnostics = [] := rfl
  have types : (matchCall .start secondOptional firstAndThird ⟨.new, []⟩).1 = [.int, .string] := rfl
  exact ⟨quiet, types ▸ quietCallsAgree quiet rfl⟩

end Quill
