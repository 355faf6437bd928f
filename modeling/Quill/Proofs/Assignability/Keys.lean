import Mathlib.Data.List.Nodup
import Mathlib.Data.List.Perm.Subperm

/-! Lists that are read as maps: the first element with a key is what the key stands for. -/
namespace Quill

variable {α κ : Type} [DecidableEq κ] {key : α → κ} {xs ys zs : List α}

theorem foundByKey {x : α} (distinct : (xs.map key).Nodup) (held : x ∈ xs) :
    xs.find? (key · = key x) = some x := by
  induction xs with
  | nil => cases held
  | cons y rest ih =>
    rw [List.map_cons, List.nodup_cons] at distinct
    rw [List.find?_cons]
    rcases List.mem_cons.mp held with rfl | held
    · simp
    · have other : key y ≠ key x := fun same => distinct.1 (same ▸ List.mem_map_of_mem held)
      simp [other, ih distinct.2 held]

def Lists (key : α → κ) (R : α → α → Prop) (xs ys : List α) : Prop :=
  ∀ x ∈ xs, ∃ y, ys.find? (key · = key x) = some y ∧ R x y

namespace Lists

variable {R S T : α → α → Prop}

theorem found {x : α} (lists : Lists key R xs ys) (held : x ∈ xs) :
    ∃ y ∈ ys, key y = key x ∧ R x y := by
  obtain ⟨y, found, related⟩ := lists x held
  exact ⟨y, List.mem_of_find?_eq_some found, by simpa using List.find?_some found, related⟩

theorem self (distinct : (xs.map key).Nodup) (related : ∀ x ∈ xs, R x x) : Lists key R xs xs :=
  fun x held => ⟨x, foundByKey distinct held, related x held⟩

theorem imp (lists : Lists key R xs ys) (implies : ∀ x ∈ xs, ∀ y ∈ ys, R x y → S x y) :
    Lists key S xs ys := by
  intro x held
  obtain ⟨y, found, related⟩ := lists x held
  exact ⟨y, found, implies x held y (List.mem_of_find?_eq_some found) related⟩

theorem chain (first : Lists key R xs ys) (second : Lists key S ys zs)
    (joins : ∀ x ∈ xs, ∀ y ∈ ys, ∀ z ∈ zs, R x y → S y z → T x z) : Lists key T xs zs := by
  intro x held
  obtain ⟨y, member, same, left⟩ := first.found held
  obtain ⟨z, found, right⟩ := second y member
  exact ⟨z, same ▸ found, joins x held y member z (List.mem_of_find?_eq_some found) left right⟩

theorem turned (lists : Lists key R xs ys) (distinct : (xs.map key).Nodup)
    (distinct' : (ys.map key).Nodup) (length : xs.length = ys.length)
    (turns : ∀ x ∈ xs, ∀ y ∈ ys, R x y → S y x) : Lists key S ys xs := by
  have among : xs.map key ⊆ ys.map key := by
    intro k held
    obtain ⟨x, member, rfl⟩ := List.mem_map.mp held
    obtain ⟨y, member', same, -⟩ := lists.found member
    exact List.mem_map.mpr ⟨y, member', same⟩
  have whole : (xs.map key).Perm (ys.map key) :=
    (distinct.subperm among).perm_of_length_le (by simp [length])
  intro y held
  obtain ⟨x, member, same⟩ := List.mem_map.mp (whole.mem_iff.mpr (List.mem_map_of_mem held))
  obtain ⟨y', found, related⟩ := lists x member
  rw [same, foundByKey distinct' held] at found
  cases found
  exact ⟨x, same ▸ foundByKey distinct member, turns x member y held related⟩

end Lists

structure Replaces (key : α → κ) (E : α → α → Prop) (xs ys : List α) : Prop where
  found : ∀ k x, xs.find? (key · = k) = some x → ∃ y, ys.find? (key · = k) = some y ∧ E x y
  held : ∀ y ∈ ys, ∃ x ∈ xs, key x = key y ∧ E x y

namespace Replaces

variable {E R S : α → α → Prop}

theorem ofLists (forth : Lists key E xs ys) (back : Lists key E ys xs)
    (turns : ∀ {x y}, E y x → E x y) : Replaces key E xs ys := by
  refine ⟨fun k x found => ?_, fun y held => ?_⟩
  · obtain rfl : key x = k := by simpa using List.find?_some found
    exact forth x (List.mem_of_find?_eq_some found)
  · obtain ⟨x, held, same, alike⟩ := back.found held
    exact ⟨x, held, same, turns alike⟩

theorem inPlace (pairs : List.Forall₂ (fun x y => key x = key y ∧ E x y) xs ys) :
    Replaces key E xs ys := by
  induction pairs with
  | nil => exact ⟨nofun, nofun⟩
  | @cons x y xs ys first rest ih =>
    obtain ⟨same, alike⟩ := first
    refine ⟨fun k z found => ?_, fun z held => ?_⟩
    · rw [List.find?_cons] at found ⊢
      rw [← same]
      split at found
      · cases found
        exact ⟨y, rfl, alike⟩
      · exact ih.found k z found
    · rcases List.mem_cons.mp held with rfl | held
      · exact ⟨x, List.mem_cons_self, same, alike⟩
      · obtain ⟨w, held, same, alike⟩ := ih.held z held
        exact ⟨w, List.mem_cons_of_mem x held, same, alike⟩

theorem right (replaces : Replaces key E xs ys) (lists : Lists key R zs xs)
    (moves : ∀ {z x y}, E x y → R z x → S z y) : Lists key S zs ys := by
  intro z held
  obtain ⟨x, found, related⟩ := lists z held
  obtain ⟨y, found, alike⟩ := replaces.found _ x found
  exact ⟨y, found, moves alike related⟩

theorem left (replaces : Replaces key E xs ys) (lists : Lists key R xs zs)
    (moves : ∀ {x y z}, E x y → R x z → S y z) : Lists key S ys zs := by
  intro y held
  obtain ⟨x, held, same, alike⟩ := replaces.held y held
  obtain ⟨z, found, related⟩ := lists x held
  exact ⟨z, same ▸ found, moves alike related⟩

end Replaces

section
variable (key)

def inserted (xs : List α) (x : α) : List α :=
  if xs.any (key · = key x) then xs.map fun old => if key old = key x then x else old
  else xs ++ [x]

end

section
variable {x y : α}

theorem insertedDistinct (distinct : (xs.map key).Nodup) : ((inserted key xs x).map key).Nodup := by
  unfold inserted
  split
  · have same : (xs.map fun old => if key old = key x then x else old).map key = xs.map key := by
      rw [List.map_map]
      refine List.map_congr_left fun old _ => ?_
      by_cases there : key old = key x <;> simp [there]
    rwa [same]
  · rename_i missing
    rw [List.map_append, List.nodup_append]
    refine ⟨distinct, List.nodup_singleton _, fun k held k' added same => missing ?_⟩
    obtain ⟨old, there, rfl⟩ := List.mem_map.mp held
    cases List.mem_singleton.mp added
    exact List.any_eq_true.mpr ⟨old, there, decide_eq_true same⟩

theorem insertedFrom (held : y ∈ inserted key xs x) : y = x ∨ y ∈ xs := by
  unfold inserted at held
  split at held
  · obtain ⟨old, there, rfl⟩ := List.mem_map.mp held
    split
    · exact .inl rfl
    · exact .inr there
  · exact (List.mem_append.mp held).symm.imp_left List.mem_singleton.mp

end

end Quill
