import Quill.Machine.Step

/-! What goes wrong with the values that are given to calls or read from. Whatever holds of such
faults is read off their kinds. -/
namespace Quill

inductive Fault.OfValues : Fault → Prop where
  | missing (param : String) : OfValues (.missingArgument param)
  | unknown (name : String) : OfValues (.unknownArgument name)
  | surplus (expected found : Nat) : OfValues (.tooManyArguments expected found)
  | output (text : String) : OfValues (.output text)
  | asserted (message : String) : OfValues (.assertFailed message)
  | unexpected (i : Intrinsic) (what : String) (got : Value) : OfValues (i.expects what got)
  | key (key : Value) : OfValues (Machine.badKey key)
  | memberless (object : Value) :
      OfValues (.typeMismatch ("cannot read a member of " ++ object.typeName))

variable {fault : Fault}

theorem placeFails {params : List String} {position : Nat} {slots : List (Option Value)}
    {args : List Argument} (refused : placeArguments params position slots args = .error fault) :
    fault.OfValues := by
  induction args generalizing position slots with
  | nil => cases refused
  | cons a rest ih =>
    rw [placeArguments] at refused
    have placed {index next : Nat} (refused : (if index < slots.length then
        placeArguments params next (slots.set index (some a.value)) rest
        else .error (.tooManyArguments params.length (index + 1))) = .error fault) :
        fault.OfValues := by
      split at refused
      · exact ih refused
      · cases refused
        exact .surplus _ _
    split at refused
    · exact placed refused
    · split at refused
      · exact placed refused
      · cases refused
        exact .unknown _

theorem requiredFails {params : List (String × Option Value)}
    (refused : requireAll params = .error fault) : fault.OfValues := by
  induction params with
  | nil => cases refused
  | cons p rest ih =>
    obtain ⟨name, _ | v⟩ := p
    · cases refused
      exact .missing name
    · rw [requireAll] at refused
      cases others : requireAll rest with
      | ok values => rw [others] at refused; cases refused
      | error fault' =>
        rw [others] at refused
        cases refused
        exact ih others

theorem memberFails {object key : Value} (refused : memberOf object key = .error fault) :
    fault.OfValues := by
  unfold memberOf at refused
  split at refused
  · split at refused <;> cases refused
    exact .key _
  · cases refused
  · cases refused
    exact .memberless _

namespace Intrinsic

variable {broken : Option String} {i : Intrinsic}

theorem callFails {args : List Value} (refused : i.call broken args = .error fault) :
    fault.OfValues := by
  unfold call printLines at refused
  repeat' split at refused
  all_goals cases refused
  all_goals constructor

theorem answerFails {args : List Argument}
    (refused : (do
      let slots ← argumentSlots i.paramNames args
      i.call broken (← requireAll (i.paramNames.zip slots))) = .error fault) : fault.OfValues := by
  simp only [Bind.bind, Except.bind] at refused
  split at refused
  · rename_i placed
    cases refused
    exact placeFails placed
  · split at refused
    · rename_i required
      cases refused
      exact requiredFails required
    · exact callFails refused

end Intrinsic

end Quill
