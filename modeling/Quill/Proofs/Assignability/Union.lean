import Quill.Proofs.Assignability.Same

/-! Unions made of types. A union of types fits where one of the types does and takes what one of
them takes, although what is in unions among them is taken out and what is there already left
out. -/
namespace Quill

namespace Ty

def choices (types : List Ty) : List Ty := (types.flatMap alternatives).foldl insertNew []

def IsUnion : Ty → Prop
  | union _ => True
  | _ => False

section
variable {types added : List Ty} {s t : Ty}

theorem insertedHere (t : Ty) (held : s ∈ types) : s ∈ insertNew types t := by
  unfold insertNew
  split
  · exact held
  · exact List.mem_append_left _ held

theorem insertedAmong (held : s ∈ insertNew types t) : s ∈ types ∨ s = t := by
  unfold insertNew at held
  split at held
  · exact .inl held
  · exact (List.mem_append.mp held).imp_right List.mem_singleton.mp

theorem insertedCovers (types : List Ty) (t : Ty) :
    ∃ s ∈ insertNew types t, s = t ∨ s.same t = true := by
  unfold insertNew
  split
  · rename_i there
    obtain ⟨s, held, same⟩ := List.any_eq_true.mp there
    exact ⟨s, held, .inr same⟩
  · exact ⟨t, List.mem_append_right _ (List.mem_singleton_self t), .inl rfl⟩

theorem insertedApart (apart : types.Pairwise fun s t => s.same t = false) :
    (insertNew types t).Pairwise fun s t => s.same t = false := by
  unfold insertNew
  split
  · exact apart
  · rename_i missing
    rw [Bool.not_eq_true, List.any_eq_false] at missing
    refine List.pairwise_append.mpr ⟨apart, List.pairwise_singleton _ t, fun s held r added => ?_⟩
    cases List.mem_singleton.mp added
    exact eq_false_of_ne_true (missing s held)

theorem foldedHere (added : List Ty) (held : s ∈ types) : s ∈ added.foldl insertNew types := by
  induction added generalizing types with
  | nil => exact held
  | cons t rest ih => exact ih (insertedHere t held)

theorem foldedAmong (held : s ∈ added.foldl insertNew types) : s ∈ types ∨ s ∈ added := by
  induction added generalizing types with
  | nil => exact .inl held
  | cons t rest ih =>
    rcases ih held with held | held
    · rcases insertedAmong held with held | rfl
      · exact .inl held
      · exact .inr List.mem_cons_self
    · exact .inr (List.mem_cons_of_mem t held)

theorem foldedCovers (types : List Ty) (held : t ∈ added) :
    ∃ s ∈ added.foldl insertNew types, s = t ∨ s.same t = true := by
  induction added generalizing types with
  | nil => cases held
  | cons r rest ih =>
    rcases List.mem_cons.mp held with rfl | held
    · obtain ⟨s, held, alike⟩ := insertedCovers types t
      exact ⟨s, foldedHere rest held, alike⟩
    · exact ih _ held

theorem foldedApart (apart : types.Pairwise fun s t => s.same t = false) :
    (added.foldl insertNew types).Pairwise fun s t => s.same t = false := by
  induction added generalizing types with
  | nil => exact apart
  | cons t rest ih => exact ih (insertedApart apart)

end

section
variable {types : List Ty} {t : Ty}

theorem alternativesOf (t : Ty) :
    (∃ inner, t = union inner) ∨ ¬t.IsUnion ∧ t.alternatives = [t] := by
  cases t with
  | union inner => exact .inl ⟨inner, rfl⟩
  | _ => exact .inr ⟨id, rfl⟩

theorem alternativesKeep {P : Ty → Prop} {s : Ty} (kept : t.Throughout P)
    (held : s ∈ t.alternatives) : s.Throughout P := by
  rcases alternativesOf t with ⟨inner, rfl⟩ | ⟨-, alone⟩
  · exact kept.inside held
  · rw [alone] at held
    cases List.mem_singleton.mp held
    exact kept

theorem choicesKeep {P : Ty → Prop} (kept : ∀ t ∈ types, t.Throughout P)
    (held : t ∈ choices types) : t.Throughout P := by
  rcases foldedAmong held with held | held
  · cases held
  · obtain ⟨m, member, held⟩ := List.mem_flatMap.mp held
    exact alternativesKeep (kept m member) held

theorem unionOfCases (types : List Ty) :
    (choices types = [] ∧ unionOf types = none) ∨
      (∃ t, choices types = [t] ∧ unionOf types = t) ∨
        choices types ≠ [] ∧ unionOf types = union (choices types) := by
  unfold unionOf
  rw [← choices]
  generalize choices types = chosen
  rcases chosen with _ | ⟨t, _ | ⟨s, rest⟩⟩
  · exact .inl ⟨rfl, rfl⟩
  · exact .inr (.inl ⟨t, rfl, rfl⟩)
  · exact .inr (.inr ⟨List.cons_ne_nil t _, rfl⟩)

theorem choicesSome (some : types ≠ []) (filled : ∀ t ∈ types, t.Filled) : choices types ≠ [] := by
  obtain ⟨m, member⟩ := List.exists_mem_of_ne_nil types some
  obtain ⟨t, held⟩ : ∃ t, t ∈ m.alternatives := by
    rcases alternativesOf m with ⟨inner, rfl⟩ | ⟨-, alone⟩
    · exact List.exists_mem_of_ne_nil inner (filled _ member)
    · exact ⟨m, alone ▸ List.mem_singleton_self m⟩
  obtain ⟨s, held, -⟩ := foldedCovers [] (List.mem_flatMap.mpr ⟨m, member, held⟩)
  exact List.ne_nil_of_mem held

theorem unionOfSome {p : Ty → Prop} (some : types ≠ []) (filled : ∀ t ∈ types, t.Filled)
    (splits : ∀ ts : List Ty, ts ≠ [] → (p (union ts) ↔ ∃ t ∈ ts, p t))
    (alike : ∀ s ∈ choices types, ∀ m ∈ types, ∀ t ∈ m.alternatives, s.same t = true →
      (p s ↔ p t)) :
    p (unionOf types) ↔ ∃ t ∈ types, p t := by
  have present := choicesSome some filled
  have chosen : p (unionOf types) ↔ ∃ t ∈ choices types, p t := by
    rcases unionOfCases types with ⟨empty, -⟩ | ⟨t, only, made⟩ | ⟨-, made⟩
    · exact absurd empty present
    · rw [made, only]
      simp
    · rw [made]
      exact splits _ present
  have taken (m : Ty) (member : m ∈ types) : p m ↔ ∃ t ∈ m.alternatives, p t := by
    rcases alternativesOf m with ⟨inner, rfl⟩ | ⟨-, alone⟩
    · exact splits inner (filled _ member)
    · rw [alone]
      simp
  rw [chosen]
  constructor
  · rintro ⟨t, held, holds⟩
    rcases foldedAmong held with held | held
    · cases held
    · obtain ⟨m, member, held⟩ := List.mem_flatMap.mp held
      exact ⟨m, member, (taken m member).mpr ⟨t, held, holds⟩⟩
  · rintro ⟨m, member, holds⟩
    obtain ⟨t, held, holds⟩ := (taken m member).mp holds
    obtain ⟨s, chosen, same⟩ :=
      foldedCovers [] (List.mem_flatMap.mpr ⟨m, member, held⟩)
    refine ⟨s, chosen, ?_⟩
    rcases same with rfl | same
    · exact holds
    · exact (alike s chosen m member t held same).mpr holds

theorem unionOfFlat (keyed : ∀ t ∈ types, t.Throughout Keyed)
    (flat : ∀ ms, union ms ∈ types → ∀ t ∈ ms, ¬t.IsUnion) {ts : List Ty}
    (made : unionOf types = union ts) :
    (∀ t ∈ ts, ¬t.IsUnion) ∧ ts.Pairwise fun s t => s.same t = false ∧ t.same s = false := by
  have single (t : Ty) (held : t ∈ choices types) : ¬t.IsUnion := by
    rcases foldedAmong held with held | held
    · cases held
    · obtain ⟨m, member, held⟩ := List.mem_flatMap.mp held
      rcases alternativesOf m with ⟨inner, rfl⟩ | ⟨whole, alone⟩
      · exact flat inner member t held
      · rw [alone] at held
        cases List.mem_singleton.mp held
        exact whole
  rcases unionOfCases types with ⟨-, empty⟩ | ⟨t, only, same⟩ | ⟨-, same⟩
  · cases empty.symm.trans made
  · cases same.symm.trans made
    exact (single (union ts) (only ▸ List.mem_singleton_self _) trivial).elim
  · cases same.symm.trans made
    refine ⟨single, (foldedApart .nil).imp_of_mem fun held held' apart => ⟨apart, ?_⟩⟩
    refine eq_false_of_ne_true fun turned => ?_
    have := sameSymm (choicesKeep keyed held') (choicesKeep keyed held) turned
    exact Bool.false_ne_true (apart.symm.trans this)

end

/-- A union of types fits just where one of them does and takes just what one of them takes. -/
theorem unionJoins {types : List Ty} (some : types ≠ [])
    (filled : ∀ t ∈ types, t.Throughout Filled) (keyed : ∀ t ∈ types, t.Throughout Keyed) :
    (∀ a : Ty, a.Throughout Filled →
      (a.assignableTo (unionOf types) = true ↔ ∃ t ∈ types, a.assignableTo t = true)) ∧
    (∀ b : Ty, (unionOf types).assignableTo b = true ↔ ∃ t ∈ types, t.assignableTo b = true) ∧
    ((∀ ms, union ms ∈ types → ∀ t ∈ ms, ¬t.IsUnion) → ∀ ts, unionOf types = union ts →
      (∀ t ∈ ts, ¬t.IsUnion) ∧ ts.Pairwise fun s t => s.same t = false ∧ t.same s = false) := by
  have present (t : Ty) (member : t ∈ types) : t.Filled := (filled t member).here
  have exchange (s : Ty) (held : s ∈ choices types) (m : Ty) (member : m ∈ types) (t : Ty)
      (held' : t ∈ m.alternatives) (same : s.same t = true) : s.Interchangeable t :=
    sameExchange (choicesKeep keyed held) (alternativesKeep (keyed m member) held') same
  refine ⟨fun a left => ?_, fun b => ?_, fun flat ts made => unionOfFlat keyed flat made⟩
  · refine unionOfSome (p := fun t => a.assignableTo t = true) some present
      (fun ts filled => fitsUnion left filled) ?_
    exact fun s held m member t held' same => (exchange s held m member t held' same a).2
  · refine unionOfSome (p := fun t => t.assignableTo b = true) some present
      (fun ts filled => unionFits filled) ?_
    exact fun s held m member t held' same => (exchange s held m member t held' same b).1

-- `{ x: int; y: 0.0 }`.
def point : Ty :=
  interface .none [.mk (.name "x") int false, .mk (.name "y") (literal (.float 0.0)) false] []

-- The members of `point` turned round, with the other zero.
def turnedPoint : Ty :=
  interface .none [.mk (.name "y") (literal (.float (-0.0))) false, .mk (.name "x") int false] []

def points : List Ty := [union [point, int], turnedPoint]

theorem pointsJoin :
    (∀ t ∈ points, t.Throughout Filled) ∧ (∀ t ∈ points, t.Throughout Keyed) ∧
      (literal (.int 1)).assignableTo (unionOf points) = true ∧
      (unionOf points).assignableTo (union [string, int]) = true ∧
      [point, int].Pairwise fun s t => s.same t = false ∧ t.same s = false := by
  have zeros : ((0.0 : Float) == -0.0) = true := by decide +kernel
  have made : unionOf points = union [point, int] := by
    simp [unionOf, points, alternatives, insertNew, same, point, turnedPoint, membersSame,
      indexSame, LitValue.same, TyMember.key, zeros]
  have filled : ∀ t ∈ points, t.Throughout Filled := by
    refine List.forall_mem_cons.mpr ⟨.node (List.cons_ne_nil _ _) rfl ?_,
      List.forall_mem_singleton.mpr ?_⟩
    · refine List.forall_mem_cons.mpr ⟨?_, List.forall_mem_singleton.mpr (.leaf trivial rfl)⟩
      refine .node trivial rfl (List.forall_mem_cons.mpr ⟨.leaf trivial rfl, ?_⟩)
      exact List.forall_mem_singleton.mpr (.leaf trivial rfl)
    · refine .node trivial rfl (List.forall_mem_cons.mpr ⟨.leaf trivial rfl, ?_⟩)
      exact List.forall_mem_singleton.mpr (.leaf trivial rfl)
  have keyed : ∀ t ∈ points, t.Throughout Keyed := by
    refine List.forall_mem_cons.mpr ⟨.node trivial rfl ?_, List.forall_mem_singleton.mpr ?_⟩
    · refine List.forall_mem_cons.mpr ⟨?_, List.forall_mem_singleton.mpr (.leaf trivial rfl)⟩
      refine .node (by simp [Keyed, point, TyMember.key]) rfl ?_
      refine List.forall_mem_cons.mpr ⟨.leaf trivial rfl, ?_⟩
      exact List.forall_mem_singleton.mpr (.leaf trivial rfl)
    · refine .node (by simp [Keyed, turnedPoint, TyMember.key]) rfl ?_
      refine List.forall_mem_cons.mpr ⟨.leaf trivial rfl, ?_⟩
      exact List.forall_mem_singleton.mpr (.leaf trivial rfl)
  obtain ⟨taken, fits, flat⟩ := unionJoins (List.cons_ne_nil _ _) filled keyed
  refine ⟨filled, keyed, ?_, ?_, (flat ?_ [point, int] made).2⟩
  · refine (taken (literal (.int 1)) (.leaf trivial rfl)).mpr ⟨_, List.mem_cons_self, ?_⟩
    simp [assignableTo, assignableToSome, LitValue.kind]
  · refine (fits _).mpr ⟨_, List.mem_cons_self, ?_⟩
    simp [assignableTo, assignableToSome, someAssignableTo]
  · intro ms member t held
    rcases List.mem_pair.mp member with same | same
    · cases same
      rcases List.mem_pair.mp held with rfl | rfl <;> exact id
    · cases same

end Ty

end Quill
