import Quill.Proofs.Arguments.Agreement
import Quill.Proofs.Assignability.Rules

/-! Calls through assignable types. Assignability of functions is about the types of parameters,
while calls are also about their names and defaults; where those agree, what one type accepts the
other does. -/
namespace Quill

theorem Ty.functionArity {ps qs : List TyParam} {r s : Ty}
    (fits : (Ty.function ps r).assignableTo (.function qs s)) : ps.length = qs.length := by
  rw [Ty.assignableTo, Bool.and_eq_true, Ty.paramsAssignable_iff] at fits
  exact fits.1.length_eq.symm

theorem ArgMatch.allAlike {params params' : List String} {filled : List Nat} {position : Nat}
    {names : List (Option String)} (length : params.length = params'.length)
    (places : ∀ name, some name ∈ names →
      params.findIdx? (· = name) = params'.findIdx? (· = name)) :
    all params filled position names = all params' filled position names := by
  induction names generalizing filled position with
  | nil => rfl
  | cons name rest ih =>
    have first : one params filled position name = one params' filled position name := by
      cases name with
      | none => simp only [one, length]
      | some name => simp only [one, places name List.mem_cons_self]
    rw [all, all, first, ih fun name held => places name (List.mem_cons_of_mem _ held)]

/-- A function with the parameters `ps` takes these arguments where one with `qs` does. -/
structure Serves (ps qs : List TyParam) (names : List (Option String)) : Prop where
  places : ∀ name, some name ∈ names →
    (ps.map (·.name)).findIdx? (· = name) = (qs.map (·.name)).findIdx? (· = name)
  defaults : ∀ (i : Nat) (p q : TyParam), ps[i]? = some p → qs[i]? = some q →
    ArgMatch.param i ∉ matchParams qs names → q.hasDefault = true → p.hasDefault = true

theorem Accepts.serves {ps qs : List TyParam} {names : List (Option String)}
    (accepts : Accepts qs names) (length : ps.length = qs.length) (serves : Serves ps qs names) :
    Accepts ps names := by
  have same : matchParams ps names = matchParams qs names :=
    ArgMatch.allAlike (by simpa using length) serves.places
  refine ⟨same ▸ accepts.placed, fun i p here needed => ?_⟩
  rw [same]
  by_contra unmatched
  obtain ⟨inside, -⟩ := List.getElem?_eq_some_iff.mp here
  have there := List.getElem?_eq_getElem (length ▸ inside)
  have optional : qs[i].hasDefault = true := by
    by_contra required
    exact unmatched (accepts.complete i _ there (by simpa using required))
  have := serves.defaults i p _ here there unmatched optional
  simp [needed] at this

/-- Arguments that are accepted for a type are accepted for one that is assignable to it and serves
the call, and calls of functions that have its parameters fail for no argument. -/
theorem assignableAccepts {ps qs : List TyParam} {r s : Ty} {span : Span} {written : List Arg}
    {state : BindState} (fits : (Ty.function ps r).assignableTo (.function qs s))
    (serves : Serves ps qs (written.map (·.name)))
    (quiet : (matchCall span qs written state).2.diagnostics = state.diagnostics) :
    (matchCall span ps written state).2.diagnostics = state.diagnostics ∧
      ∀ args : List Argument, args.map (·.name) = written.map (·.name) →
        CallsAgree ps (matchCall span ps written state).1 args := by
  have accepts := (matchQuiet.mp quiet).serves (Ty.functionArity fits) serves
  exact ⟨matchQuiet.mpr accepts, fun args names => accepts.checkedAgree names⟩

-- The arguments of `g(a: 1)`.
def namedFirst : List Arg := [.mk (some "a") (.literal ⟨0, .start⟩ (.int 1))]

theorem otherNameServes :
    (Ty.function [.mk "a" .int false, .mk "c" .int true] .int).assignableTo
        (.function [.mk "a" .int false, .mk "b" .int true] .int) = true ∧
      (matchCall .start [.mk "a" .int false, .mk "c" .int true] namedFirst
        ⟨.new, []⟩).2.diagnostics = [] := by
  have fits : (Ty.function [.mk "a" .int false, .mk "c" .int true] .int).assignableTo
      (.function [.mk "a" .int false, .mk "b" .int true] .int) = true := by
    simp [Ty.assignableTo, Ty.paramsAssignable, Ty.int]
  have serves : Serves [.mk "a" .int false, .mk "c" .int true]
      [.mk "a" .int false, .mk "b" .int true] (namedFirst.map (·.name)) := by
    refine ⟨fun name held => ?_, fun i p q here there _ optional => ?_⟩
    · obtain rfl : name = "a" := by simpa [namedFirst, Arg.name] using held
      rfl
    · rcases i with _ | _ | i <;> cases here <;> cases there
      · cases optional
      · rfl
  exact ⟨fits, (assignableAccepts fits serves rfl).1⟩

def Breaks (ps qs : List TyParam) (call : List Arg) : Prop :=
  (Ty.function ps .int).assignableTo (.function qs .int) = true ∧
    (matchCall .start qs call ⟨.new, []⟩).2.diagnostics = [] ∧
    (matchCall .start ps call ⟨.new, []⟩).2.diagnostics ≠ []

theorem namesAndDefaultsCount :
    Breaks [.mk "b" .int false] [.mk "a" .int false] namedFirst ∧
      Breaks [.mk "b" .int false, .mk "a" .int false] [.mk "a" .int false, .mk "b" .int false]
        [.mk none (.literal ⟨0, .start⟩ (.int 1)), .mk (some "b") (.literal ⟨1, .start⟩ (.int 2))] ∧
      Breaks [.mk "a" .int false] [.mk "a" .int true] [] := by
  refine ⟨⟨?_, rfl, List.cons_ne_nil _ _⟩, ⟨?_, rfl, List.cons_ne_nil _ _⟩,
    ⟨?_, rfl, List.cons_ne_nil _ _⟩⟩ <;> simp [Ty.assignableTo, Ty.paramsAssignable, Ty.int]

end Quill
