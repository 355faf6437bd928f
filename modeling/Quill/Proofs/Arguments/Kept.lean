import Quill.Proofs.Arguments.Placed

/-! Arguments that are kept. The value of an argument is lost only to a later argument for the same
parameter, which a check of the call would have reported. -/
namespace Quill

namespace ArgMatch
variable {params : List String} {filled : List Nat} {position : Nat} {names : List (Option String)}

theorem oneFilled {name : Option String} {index : Nat} (held : index ∈ filled)
    (target : (one params filled position name).target? = some index) :
    one params filled position name = again index := by
  unfold one at target ⊢
  grind [target?]

theorem oneFills {name : Option String} {index : Nat}
    (target : (one params filled position name).target? = some index) :
    index ∈ (one params filled position name).index?.toList ++ filled := by
  unfold one at target ⊢
  grind [target?, index?]

theorem filledAgain {index l : Nat} {m : ArgMatch} (held : index ∈ filled)
    (there : (all params filled position names)[l]? = some m) (target : m.target? = some index) :
    m = again index := by
  induction names generalizing filled position l with
  | nil => simp [all] at there
  | cons name rest ih =>
    cases l with
    | zero =>
      cases there
      exact oneFilled held target
    | succ l => exact ih (List.mem_append_right _ held) there

theorem laterAgain {index k l : Nat} {m n : ArgMatch} (before : k < l)
    (here : (all params filled position names)[k]? = some m) (target : m.target? = some index)
    (there : (all params filled position names)[l]? = some n) (target' : n.target? = some index) :
    n = again index := by
  induction names generalizing filled position k l with
  | nil => simp [all] at here
  | cons name rest ih =>
    obtain ⟨l, rfl⟩ := Nat.exists_eq_add_one_of_ne_zero (Nat.ne_zero_of_lt before)
    cases k with
    | zero =>
      -- The parameter is filled from here on, so that whatever is for it again is reported.
      cases here
      exact filledAgain (oneFills target) there target'
    | succ k => exact ih (Nat.lt_of_succ_lt_succ before) here there

end ArgMatch

section
variable {params : List String} {args : List Argument} {slots : List (Option Value)}

theorem placedFound (placed : argumentSlots params args = .ok slots) :
    ∀ m ∈ matchArguments params (args.map (·.name)), m.target?.isSome := by
  intro m held
  cases target : m.target? with
  | some index => rfl
  | none =>
    obtain ⟨fault, refused, -⟩ := slotsRefused held target
    cases placed.symm.trans refused

theorem refusedArguments {fault : Fault} (refused : argumentSlots params args = .error fault) :
    fault.OfArguments := by
  by_cases found : ∀ m ∈ matchArguments params (args.map (·.name)), m.target?.isSome
  · cases (slotsGiven found).symm.trans refused
  · simp only [Classical.not_forall, Option.not_isSome_iff_eq_none] at found
    obtain ⟨m, held, lost⟩ := found
    obtain ⟨fault', refused', ofArguments⟩ := slotsRefused held lost
    cases refused.symm.trans refused'
    exact ofArguments

/-- The last argument for a parameter is its value. -/
theorem lastArgumentKept {k index : Nat} {a : Argument} {m : ArgMatch}
    (placed : argumentSlots params args = .ok slots) (given : args[k]? = some a)
    (here : (matchArguments params (args.map (·.name)))[k]? = some m)
    (target : m.target? = some index)
    (last : ∀ l (n : ArgMatch), k < l →
      (matchArguments params (args.map (·.name)))[l]? = some n → n.target? ≠ some index) :
    slots[index]? = some (some a.value) := by
  cases placed.symm.trans (slotsGiven (placedFound placed))
  exact lastGiven given here target last

/-- If no parameter is given twice, every argument is the value of the parameter that it is for. -/
theorem argumentsKept {k : Nat} {a : Argument}
    (apart : ∀ index, .again index ∉ matchArguments params (args.map (·.name)))
    (placed : argumentSlots params args = .ok slots) (given : args[k]? = some a) :
    ∃ index, (matchArguments params (args.map (·.name)))[k]? = some (.param index) ∧
      slots[index]? = some (some a.value) := by
  have inside : k < (matchArguments params (args.map (·.name))).length := by
    obtain ⟨inside, -⟩ := List.getElem?_eq_some_iff.mp given
    simpa [matchArguments, ArgMatch.allLength] using inside
  have here := List.getElem?_eq_getElem inside
  have held := List.mem_of_getElem? here
  generalize (matchArguments params (args.map (·.name)))[k] = m at here held
  obtain ⟨index, target⟩ := Option.isSome_iff_exists.mp (placedFound placed m held)
  have single : m = .param index := by
    cases m <;> simp [ArgMatch.target?] at target
    · exact congrArg ArgMatch.param target
    · exact (apart _ held).elim
  refine ⟨index, single ▸ here, lastArgumentKept placed given here target ?_⟩
  intro l n after there again
  exact apart index (ArgMatch.laterAgain after here target there again ▸ List.mem_of_getElem? there)

end

-- After `fn pick(a, b = 0)`, the call `pick(1, a: 2)` drops its first argument.
example : argumentSlots ["a", "b"] [⟨none, .int 1⟩, ⟨some "a", .int 2⟩] =
    .ok [some (.int 2), none] :=
  rfl

theorem requireCases {names : List String} {slots : List (Option Value)}
    (length : names.length = slots.length) :
    (∃ fault, requireAll (names.zip slots) = .error fault ∧ fault.OfArguments) ∨
      ∃ values : List Value, slots = values.map some := by
  induction names generalizing slots with
  | nil => exact .inr ⟨[], List.length_eq_zero_iff.mp length.symm⟩
  | cons name names ih =>
    rcases slots with _ | ⟨_ | v, slots⟩
    · simp at length
    · exact .inl ⟨_, rfl, trivial⟩
    · rcases ih (Nat.succ.inj length) with ⟨fault, refused, ofArguments⟩ | ⟨values, rfl⟩
      · rw [List.zip_cons_cons, requireAll, refused]
        exact .inl ⟨fault, rfl, ofArguments⟩
      · exact .inr ⟨v :: values, rfl⟩

namespace Machine

/-- A call of a closure fails for its arguments, or fills each parameter with the last argument for
it. -/
theorem closureTakesLast (setup : Setup) (m : Machine) (c : Closure) (args : List Argument) :
    (∃ fault : Fault, fault.OfArguments ∧ m.callClosure setup c args =
      { m with scopes := (m.scopes.child c.scope).2 }.fail setup fault none) ∨
    m.callClosure setup c args =
      { m with scopes := (m.scopes.child c.scope).2 }.fillParams setup c (m.scopes.child c.scope).1
        (c.params.zip (lastValues (c.params.map ClosureParam.name) args)) := by
  unfold callClosure
  cases placed : argumentSlots (c.params.map ClosureParam.name) args with
  | error fault => exact .inl ⟨fault, refusedArguments placed, rfl⟩
  | ok slots =>
    cases placed.symm.trans (slotsGiven (placedFound placed))
    exact .inr rfl

/-- So does a call of a built-in function. -/
theorem intrinsicTakesLast (setup : Setup) (m : Machine) (i : Intrinsic) (args : List Argument) :
    (∃ fault : Fault, fault.OfArguments ∧ m.callIntrinsic setup i args = m.fail setup fault none) ∨
    ∃ values : List Value, lastValues i.paramNames args = values.map some ∧
      m.callIntrinsic setup i args =
        match i.call setup.broken values with
        | .ok r => { m with output := m.output ++ r.printed }.push r.value m.current.stack
        | .error fault => m.fail setup fault none := by
  cases placed : argumentSlots i.paramNames args with
  | error fault =>
    refine .inl ⟨fault, refusedArguments placed, ?_⟩
    simp only [callIntrinsic, placed]
    rfl
  | ok slots =>
    cases placed.symm.trans (slotsGiven (placedFound placed))
    have length : i.paramNames.length = (lastValues i.paramNames args).length := by
      simp [lastValues]
    rcases requireCases length with ⟨fault, refused, ofArguments⟩ | ⟨values, same⟩
    · refine .inl ⟨fault, ofArguments, ?_⟩
      rw [callIntrinsicPlaced placed, refused]
      rfl
    · rw [same] at placed length
      exact .inr ⟨values, same, callIntrinsicGiven placed (by simpa using length)⟩

end Machine

end Quill
