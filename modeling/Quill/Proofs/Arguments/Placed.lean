import Quill.Arguments
import Quill.Machine.Call

/-! Arguments put into slots. A call and its check take the same argument for the same parameter,
but where two arguments are for one parameter, the check reports the second and the call keeps it.
-/
namespace Quill

namespace ArgMatch

def target? : ArgMatch → Option Nat
  | param index | again index => some index
  | surplus | unknown _ => none

@[simp] theorem fillTarget (filled : List Nat) (index : Nat) :
    (if index ∈ filled then again index else param index).target? = some index := by
  split <;> rfl

theorem oneBound {params : List String} {filled : List Nat} {position : Nat}
    {name : Option String} {index : Nat}
    (found : (one params filled position name).target? = some index) : index < params.length := by
  cases name with
  | none =>
    simp only [one] at found
    split at found
    · rename_i inside
      cases (fillTarget filled position).symm.trans found
      exact inside
    · cases found
  | some name =>
    simp only [one] at found
    split at found
    · rename_i i named
      cases (fillTarget filled i).symm.trans found
      obtain ⟨inside, -⟩ := List.findIdx?_eq_some_iff_findIdx_eq.mp named
      exact inside
    · cases found

theorem allBound {params : List String} {filled : List Nat} {position : Nat}
    {names : List (Option String)} {m : ArgMatch} {index : Nat}
    (held : m ∈ all params filled position names) (target : m.target? = some index) :
    index < params.length := by
  induction names generalizing filled position with
  | nil => simp [all] at held
  | cons name rest ih =>
    rcases List.mem_cons.mp held with rfl | later
    · exact oneBound target
    · exact ih later

theorem allLength {params : List String} {filled : List Nat} {position : Nat}
    {names : List (Option String)} : (all params filled position names).length = names.length := by
  induction names generalizing filled position with
  | nil => rfl
  | cons name rest ih => simp [all, ih]

end ArgMatch

def valuesFor (index : Nat) : List ArgMatch → List Argument → List Value
  | m :: matched, a :: args =>
    if m.target? = some index then a.value :: valuesFor index matched args
    else valuesFor index matched args
  | _, _ => []

def Fault.OfArguments : Fault → Prop
  | .missingArgument _ | .unknownArgument _ | .tooManyArguments .. => True
  | _ => False

section
variable {params : List String} {filled : List Nat} {position : Nat} {slots : List (Option Value)}
  {a : Argument} {args : List Argument}

theorem placeOne {index : Nat} (length : slots.length = params.length)
    (found : (ArgMatch.one params filled position a.name).target? = some index) :
    placeArguments params position slots (a :: args) =
      placeArguments params (if a.name.isNone then position + 1 else position)
        (slots.set index (some a.value)) args := by
  have inside := ArgMatch.oneBound found
  rw [← length] at inside
  rw [placeArguments]
  cases name : a.name with
  | none =>
    simp only [name, ArgMatch.one] at found
    split at found
    · cases (ArgMatch.fillTarget filled position).symm.trans found
      simp [inside]
    · cases found
  | some n =>
    simp only [name, ArgMatch.one] at found
    split at found
    · rename_i i named
      cases (ArgMatch.fillTarget filled i).symm.trans found
      simp [named, inside]
    · cases found

theorem placeRefused (length : slots.length = params.length)
    (lost : (ArgMatch.one params filled position a.name).target? = none) :
    ∃ fault, placeArguments params position slots (a :: args) = .error fault ∧
      fault.OfArguments := by
  rw [placeArguments]
  cases name : a.name with
  | none =>
    simp only [name, ArgMatch.one] at lost
    split at lost
    · simp at lost
    · rename_i beyond
      rw [← length] at beyond
      simp [beyond, Fault.OfArguments]
  | some n =>
    simp only [name, ArgMatch.one] at lost
    split at lost
    · simp at lost
    · rename_i missing
      simp [missing, Fault.OfArguments]

theorem placedLast (length : slots.length = params.length)
    (found : ∀ m ∈ ArgMatch.all params filled position (args.map (·.name)), m.target?.isSome) :
    ∃ placed, placeArguments params position slots args = .ok placed ∧
      placed.length = params.length ∧
      ∀ i, placed[i]? = slots[i]?.map (valuesFor i
        (ArgMatch.all params filled position (args.map (·.name))) args).getLast?.or := by
  induction args generalizing filled position slots with
  | nil =>
    refine ⟨slots, rfl, length, fun i => ?_⟩
    cases slots[i]? <;> simp [ArgMatch.all, valuesFor]
  | cons a rest ih =>
    simp only [List.map_cons, ArgMatch.all, List.forall_mem_cons] at found ⊢
    obtain ⟨first, others⟩ := found
    obtain ⟨index, target⟩ := Option.isSome_iff_exists.mp first
    have kept : (slots.set index (some a.value)).length = params.length := by simpa using length
    obtain ⟨placed, given, length', last⟩ := ih kept others
    refine ⟨placed, (placeOne length target).trans given, length', fun i => ?_⟩
    rw [last, valuesFor, target]
    by_cases same : index = i
    · subst same
      have inside : index < slots.length := length ▸ ArgMatch.oneBound target
      simp [inside, List.getLast?_cons]
    · simp [same]

theorem placeLost (length : slots.length = params.length) {m : ArgMatch}
    (lost : m ∈ ArgMatch.all params filled position (args.map (·.name)))
    (nowhere : m.target? = none) :
    ∃ fault, placeArguments params position slots args = .error fault ∧ fault.OfArguments := by
  induction args generalizing filled position slots with
  | nil => simp [ArgMatch.all] at lost
  | cons a rest ih =>
    simp only [List.map_cons, ArgMatch.all, List.mem_cons] at lost
    cases target : (ArgMatch.one params filled position a.name).target? with
    | none => exact placeRefused length target
    | some index =>
      rw [placeOne length target]
      refine ih (by simpa using length) (lost.resolve_left fun same => ?_)
      rw [same, target] at nowhere
      cases nowhere

end

def lastValues (params : List String) (args : List Argument) : List (Option Value) :=
  (List.range params.length).map fun i =>
    (valuesFor i (matchArguments params (args.map (·.name))) args).getLast?

section
variable {params : List String} {args : List Argument}

theorem slotsGiven (found : ∀ m ∈ matchArguments params (args.map (·.name)), m.target?.isSome) :
    argumentSlots params args = .ok (lastValues params args) := by
  obtain ⟨placed, given, length, last⟩ := placedLast List.length_replicate found
  rw [argumentSlots, given]
  congr 1
  apply List.ext_getElem? fun i => ?_
  rw [last]
  by_cases inside : i < params.length <;> simp [lastValues, matchArguments, inside]

theorem slotsRefused {m : ArgMatch} (lost : m ∈ matchArguments params (args.map (·.name)))
    (nowhere : m.target? = none) :
    ∃ fault, argumentSlots params args = .error fault ∧ fault.OfArguments :=
  placeLost List.length_replicate lost nowhere

end

section
variable {index : Nat} {matched : List ArgMatch} {args : List Argument}

theorem valuesNone (unmatched : ∀ m ∈ matched, m.target? ≠ some index) :
    valuesFor index matched args = [] := by
  induction matched generalizing args with
  | nil => rfl
  | cons m matched ih =>
    cases args with
    | nil => rfl
    | cons a args => simp_all [valuesFor]

theorem valuesLast {k : Nat} {m : ArgMatch} {a : Argument} (here : matched[k]? = some m)
    (target : m.target? = some index) (given : args[k]? = some a)
    (last : ∀ l (n : ArgMatch), k < l → matched[l]? = some n → n.target? ≠ some index) :
    (valuesFor index matched args).getLast? = some a.value := by
  induction matched generalizing args k with
  | nil => simp at here
  | cons first matched ih =>
    cases args with
    | nil => simp at given
    | cons b args =>
      cases k with
      | zero =>
        cases here
        cases given
        have others : ∀ m ∈ matched, m.target? ≠ some index := by
          intro n held
          obtain ⟨l, there⟩ := List.getElem?_of_mem held
          exact last (l + 1) n (Nat.succ_pos l) there
        simp [valuesFor, target, valuesNone others]
      | succ k =>
        have rest := ih here given fun l n after => last (l + 1) n (Nat.succ_lt_succ after)
        by_cases same : first.target? = some index <;>
          simp [valuesFor, same, rest, List.getLast?_cons]

end

theorem requireGiven {names : List String} {values : List Value}
    (length : names.length = values.length) :
    requireAll (names.zip (values.map some)) = .ok values := by
  induction names generalizing values with
  | nil => cases values <;> simp_all [requireAll]
  | cons name names ih =>
    cases values with
    | nil => simp at length
    | cons v values =>
      rw [List.map_cons, List.zip_cons_cons, requireAll, ih (Nat.succ.inj length)]
      rfl

section
variable {setup : Setup} {m : Machine} {i : Intrinsic} {args : List Argument}

theorem Machine.callIntrinsicPlaced {slots : List (Option Value)}
    (placed : argumentSlots i.paramNames args = .ok slots) :
    m.callIntrinsic setup i args =
      match requireAll (i.paramNames.zip slots) >>= i.call setup.broken with
      | .ok r => { m with output := m.output ++ r.printed }.push r.value m.current.stack
      | .error fault => m.fail setup fault none := by
  unfold callIntrinsic
  rw [placed]
  rfl

theorem Machine.callIntrinsicGiven {values : List Value}
    (placed : argumentSlots i.paramNames args = .ok (values.map some))
    (length : i.paramNames.length = values.length) :
    m.callIntrinsic setup i args =
      match i.call setup.broken values with
      | .ok r => { m with output := m.output ++ r.printed }.push r.value m.current.stack
      | .error fault => m.fail setup fault none := by
  have called : (requireAll (i.paramNames.zip (values.map some)) >>= i.call setup.broken) =
      i.call setup.broken values :=
    congrArg (· >>= i.call setup.broken) (requireGiven length)
  rw [callIntrinsicPlaced placed, called]

end

theorem lastGiven {params : List String} {args : List Argument} {k index : Nat} {a : Argument}
    {m : ArgMatch} (given : args[k]? = some a)
    (here : (matchArguments params (args.map (·.name)))[k]? = some m)
    (target : m.target? = some index)
    (last : ∀ l (n : ArgMatch), k < l →
      (matchArguments params (args.map (·.name)))[l]? = some n → n.target? ≠ some index) :
    (lastValues params args)[index]? = some (some a.value) := by
  have bound := ArgMatch.allBound (List.mem_of_getElem? here) target
  simp [lastValues, bound, valuesLast here target given last]

end Quill
