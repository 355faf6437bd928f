import Quill.Proofs.Assignability.Literals
import Quill.Proofs.Assignability.Rules

/-! Types fit themselves. A union and an intersection are not compared with themselves member by
member: a union is held against the whole of the other as soon as one of its members is picked, and
an intersection against each member of the other, which can be a union or an intersection again. -/
namespace Quill

namespace Ty

def Numeric : Ty → Prop
  | literal v => v.isNaN = false
  | _ => True

def Keyed : Ty → Prop
  | interface _ members index => (members.map (·.key)).Nodup ∧ (index.map (·.kind)).Nodup
  | _ => True

structure Proper (t : Ty) : Prop where
  filled : t.Filled
  numeric : t.Numeric
  keyed : t.Keyed

abbrev Regular (t : Ty) : Prop := t.Throughout Proper

theorem Regular.filled {t : Ty} (regular : t.Regular) : t.Throughout Filled :=
  regular.imp fun _ => Proper.filled

theorem coreSelf {t : Ty} (core : t.Core) (numeric : t.Numeric) (keyed : t.Keyed)
    (inside : ∀ s ∈ t.components, s.assignableTo s = true) : Matches t t := by
  cases t with
  | any | union _ | intersection _ | parenthesized _ => exact core.elim
  | primitive p => exact .primitive p
  | literal v => exact .literal (v.sameSelf numeric)
  | named name args =>
    exact .named name (List.forall₂_same.mpr fun s held => ⟨inside s held, inside s held⟩)
  | array element =>
    have fits := inside element List.mem_cons_self
    exact .array fits fits
  | function params ret =>
    exact .function (List.forall₂_same.mpr fun p held => inside _ (paramInside held))
      (inside ret returnInside)
  | interface name members index =>
    exact .interface name name (.self keyed.1 fun m held => inside _ (memberInside held))
      (.self keyed.2 fun i held => inside _ (indexInside held))

theorem selfFits {t : Ty} (regular : t.Regular) : t.assignableTo t = true := by
  induction regular with
  | @intro t here inside ih =>
    have filled (s : Ty) (held : s ∈ t.components) : s.Throughout Filled :=
      Regular.filled (inside s held)
    cases t.shaped with
    | any => exact anyLeft any
    | union types =>
      obtain ⟨s, held⟩ := List.exists_mem_of_ne_nil types here.filled
      refine (unionFits here.filled).mpr ⟨s, held, ?_⟩
      exact (fitsUnion (filled s held) here.filled).mpr ⟨s, held, ih s held⟩
    | intersection types =>
      refine (intersectionRight (intersectionSingle types)).mpr fun s held => ?_
      exact intersectionSome held (filled s held) (filled s held) (ih s held)
    | parenthesized inner =>
      rw [parensLeft, parensRight]
      exact ih inner List.mem_cons_self
    | core core => exact (matches_iff core core).mpr (coreSelf core here.numeric here.keyed ih)

end Ty

end Quill
