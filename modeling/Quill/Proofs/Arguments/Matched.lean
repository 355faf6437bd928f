import Quill.Proofs.Arguments.Placed
import Quill.Proofs.Binding.Resolved
import Mathlib.Tactic.ByContra

/-! Calls that are reported for nothing. Each argument is matched to a parameter of its own, and
only parameters with a default are left without one. -/
namespace Quill

def matchParams (params : List TyParam) (names : List (Option String)) : List ArgMatch :=
  matchArguments (params.map (·.name)) names

structure Accepts (params : List TyParam) (names : List (Option String)) : Prop where
  placed : ∀ m ∈ matchParams params names, ∃ i, m = .param i
  complete : ∀ i p, params[i]? = some p → p.hasDefault = false →
    .param i ∈ matchParams params names

namespace ArgMatch

variable {params : List String} {filled : List Nat} {position : Nat} {names : List (Option String)}

theorem oneFresh {name : Option String} {index : Nat}
    (found : one params filled position name = .param index) : index ∉ filled := by
  unfold one at found
  grind

theorem allFresh {index : Nat}
    (found : .param index ∈ all params filled position names) : index ∉ filled := by
  induction names generalizing filled position with
  | nil => simp [all] at found
  | cons name rest ih =>
    simp only [all, List.mem_cons] at found
    rcases found with first | later
    · exact oneFresh first.symm
    · intro held
      exact ih later (List.mem_append_right _ held)

theorem oneApart {name : Option String} {next index k : Nat}
    (first : one params filled position name = .param index)
    (later : (all params ((one params filled position name).index?.toList ++ filled) next
      names)[k]? = some (.param index)) : False :=
  allFresh (List.mem_of_getElem? later) (by simp [first, index?])

theorem allApart {index k l : Nat}
    (here : (all params filled position names)[k]? = some (.param index))
    (there : (all params filled position names)[l]? = some (.param index)) : k = l := by
  induction names generalizing filled position k l with
  | nil => simp [all] at here
  | cons name rest ih =>
    cases k with
    | zero =>
      cases l with
      | zero => rfl
      | succ l => exact (oneApart (Option.some.inj here) there).elim
    | succ k =>
      cases l with
      | zero => exact (oneApart (Option.some.inj there) here).elim
      | succ l => exact congrArg (· + 1) (ih here there)

end ArgMatch

section
variable {params : List TyParam} {names : List (Option String)}

theorem matchLength : (matchParams params names).length = names.length :=
  ArgMatch.allLength

theorem filledMatched {matched : List ArgMatch} {index : Nat} :
    index ∈ matched.filterMap ArgMatch.index? ↔ .param index ∈ matched := by
  constructor
  · intro held
    obtain ⟨m, held, same⟩ := List.mem_filterMap.mp held
    cases m <;> simp [ArgMatch.index?] at same
    exact same ▸ held
  · exact fun held => List.mem_filterMap.mpr ⟨_, held, rfl⟩

theorem missingNone {filled : List Nat} : missingParams params filled = [] ↔
    ∀ i p, params[i]? = some p → p.hasDefault = false → i ∈ filled := by
  have lacking {p : TyParam} : p ∈ missingParams params filled ↔
      ∃ i, params[i]? = some p ∧ p.hasDefault = false ∧ i ∉ filled := by
    simp [missingParams, List.mem_zipIdx_iff_getElem?]
  simp only [List.eq_nil_iff_forall_not_mem, lacking]
  grind

end

theorem Binder.errorEach {α : Type} (items : List α) (code : DiagnosticCode) (span : Span)
    (text : α → String) (s : BindState) :
    (forIn items PUnit.unit fun x _ => do
      error code span (text x)
      Pure.pure (ForInStep.yield PUnit.unit) : Binder PUnit) s =
      (⟨⟩, { s with
        diagnostics := s.diagnostics ++ items.map fun x => .error code span (text x) }) := by
  induction items generalizing s with
  | nil => simp; rfl
  | cons x rest ih =>
    rw [List.forIn_cons]
    refine (ih _).trans ?_
    simp [List.append_assoc]

section
variable {span : Span} {params : List TyParam} {args : List Arg} {s : BindState}

def callFaults (params : List TyParam) (args : List Arg) : List String :=
  let matched := matchParams params (args.map (·.name))
  matched.filterMap (fun m => (argType params args.length m).2) ++
    (missingParams params (matched.filterMap ArgMatch.index?)).map fun p =>
      "missing argument for parameter '" ++ p.name ++ "'"

theorem matchCallGives : matchCall span params args s =
    ((matchParams params (args.map (·.name))).map fun m => (argType params args.length m).1,
      { s with
        diagnostics := s.diagnostics ++ (callFaults params args).map (.error .b0008 span ·) }) := by
  refine (Binder.onward (Binder.errorEach _ .b0008 span id s)).trans ?_
  refine (congrArg (fun r : PUnit × BindState => (_, r.2))
    (Binder.errorEach _ .b0008 span _ _)).trans ?_
  simp [callFaults, matchParams, List.filterMap_map, Function.comp_def]

theorem faultless : callFaults params args = [] ↔ Accepts params (args.map (·.name)) := by
  have shown (m : ArgMatch) : (argType params args.length m).2 = none ↔ ∃ i, m = .param i := by
    cases m <;> simp [argType]
  simp only [callFaults, List.append_eq_nil_iff, List.filterMap_eq_nil_iff, List.map_eq_nil_iff,
    missingNone, filledMatched, shown]
  exact ⟨fun ⟨placed, complete⟩ => ⟨placed, complete⟩, fun ⟨placed, complete⟩ => ⟨placed, complete⟩⟩

theorem matchQuiet : (matchCall span params args s).2.diagnostics = s.diagnostics ↔
    Accepts params (args.map (·.name)) := by
  simp [matchCallGives, faultless]

end

end Quill
