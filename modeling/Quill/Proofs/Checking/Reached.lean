import Quill.Bound.Nodes
import Quill.Syntax.Arena
import Mathlib.Data.List.Nodup

/-! What is reached in a tree from its roots. A list of nodes that is put together as trees are, a
node behind its children, is reached as a whole, and nothing else is. -/
namespace Quill

structure Family where
  id : Nat
  children : List Nat

inductive Reaches (families : List Family) (roots : List Nat) : Nat → Prop where
  | root {id : Nat} (held : id ∈ roots) : Reaches families roots id
  | child {f : Family} {id : Nat} (above : Reaches families roots f.id) (held : f ∈ families)
      (child : id ∈ f.children) : Reaches families roots id

structure Spans (families : List Family) (roots : List Nat) : Prop where
  starts : ∀ id ∈ roots, id ∈ families.map Family.id
  closed : ∀ f ∈ families, ∀ id ∈ f.children, id ∈ families.map Family.id
  reached : ∀ f ∈ families, Reaches families roots f.id

section
variable {families more : List Family} {roots others : List Nat} {id : Nat}

theorem Reaches.mono (reached : Reaches families roots id) (within : families ⊆ more)
    (starts : ∀ id ∈ roots, Reaches more others id) : Reaches more others id := by
  induction reached with
  | root held => exact starts _ held
  | child _ held child ih => exact .child ih (within held) child

theorem Spans.nil : Spans [] [] := by
  constructor <;> simp

theorem Spans.append (first : Spans families roots) (second : Spans more others) :
    Spans (families ++ more) (roots ++ others) where
  starts id held := by
    rw [List.map_append, List.mem_append]
    exact (List.mem_append.mp held).imp (first.starts id) (second.starts id)
  closed f held id child := by
    rw [List.map_append, List.mem_append]
    exact (List.mem_append.mp held).imp (first.closed f · id child) (second.closed f · id child)
  reached f held := by
    rcases List.mem_append.mp held with held | held
    · exact (first.reached f held).mono (List.subset_append_left _ _)
        fun _ root => .root (List.mem_append_left _ root)
    · exact (second.reached f held).mono (List.subset_append_right _ _)
        fun _ root => .root (List.mem_append_right _ root)

theorem Spans.node (children : Spans families roots) (id : Nat) :
    Spans (families ++ [⟨id, roots⟩]) [id] where
  starts := by simp
  closed f held child below := by
    rw [List.map_append, List.mem_append]
    left
    rcases List.mem_append.mp held with held | held
    · exact children.closed f held child below
    · cases List.mem_singleton.mp held
      exact children.starts child below
  reached f held := by
    have self : Reaches (families ++ [⟨id, roots⟩]) [id] id := .root (by simp)
    rcases List.mem_append.mp held with held | held
    · refine (children.reached f held).mono (List.subset_append_left _ _) fun root below => ?_
      exact .child (f := ⟨id, roots⟩) self (by simp) below
    · cases List.mem_singleton.mp held
      exact self

theorem Spans.exactly (spans : Spans families roots) (among : families.Sublist more)
    (distinct : (more.map Family.id).Nodup) :
    Reaches more roots id ↔ id ∈ families.map Family.id := by
  constructor
  · intro reached
    induction reached with
    | root held => exact spans.starts _ held
    | child _ held child ih =>
      -- Numbers are distinct, so the node that leads here is the one of its number that is spanned.
      obtain ⟨f, inside, same⟩ := List.mem_map.mp ih
      have one := List.inj_on_of_nodup_map distinct (among.subset inside) held same
      exact spans.closed _ (one ▸ inside) _ child
  · intro held
    obtain ⟨f, inside, rfl⟩ := List.mem_map.mp held
    exact (spans.reached f inside).mono among.subset fun _ held => .root held

end

end Quill
