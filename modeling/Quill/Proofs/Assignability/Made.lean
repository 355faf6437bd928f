import Quill.Bind
import Quill.Proofs.Assignability.Reflexive
import Quill.Proofs.Assignability.Union
import Quill.Proofs.Assignability.Widened

/-! Types that are made of regular types, or taken out of them. A union of types has members, and an
interface that gets a member has one for each key. -/
namespace Quill

namespace Ty

section
variable {r : Ty} {ps : List TyParam} {name : Option String} {ms : List TyMember}
  {is : List TyIndex}

theorem anyRegular : any.Regular := .leaf ⟨trivial, trivial, trivial⟩ rfl

theorem primitiveRegular (p : Primitive) : (primitive p).Regular :=
  .leaf ⟨trivial, trivial, trivial⟩ rfl

theorem literalRegular {v : LitValue} (number : v.isNaN = false) : (literal v).Regular :=
  .leaf ⟨trivial, number, trivial⟩ rfl

theorem namedRegular {name : String} {args : List Ty} (regular : ∀ t ∈ args, t.Regular) :
    (named name args).Regular := .node ⟨trivial, trivial, trivial⟩ rfl regular

theorem arrayRegular (regular : r.Regular) : (array r).Regular :=
  .node ⟨trivial, trivial, trivial⟩ rfl (List.forall_mem_singleton.mpr regular)

theorem parenthesizedRegular (regular : r.Regular) : (parenthesized r).Regular :=
  .node ⟨trivial, trivial, trivial⟩ rfl (List.forall_mem_singleton.mpr regular)

theorem intersectionRegular {types : List Ty} (regular : ∀ t ∈ types, t.Regular) :
    (intersection types).Regular := .node ⟨trivial, trivial, trivial⟩ rfl regular

theorem unionRegular {types : List Ty} (some : types ≠ []) (regular : ∀ t ∈ types, t.Regular) :
    (union types).Regular := .node ⟨some, trivial, trivial⟩ rfl regular

theorem functionRegular (params : ∀ p ∈ ps, p.type.Regular) (returns : r.Regular) :
    (function ps r).Regular := by
  refine .node ⟨trivial, trivial, trivial⟩ rfl (List.forall_mem_append.mpr ⟨?_, ?_⟩)
  · exact List.forall_mem_map.mpr params
  · exact List.forall_mem_singleton.mpr returns

theorem interfaceRegular (keys : (ms.map (·.key)).Nodup) (kinds : (is.map (·.kind)).Nodup)
    (members : ∀ m ∈ ms, m.type.Regular) (index : ∀ i ∈ is, i.type.Regular) :
    (interface name ms is).Regular := by
  refine .node ⟨trivial, trivial, keys, kinds⟩ rfl (List.forall_mem_append.mpr ⟨?_, ?_⟩)
  · exact List.forall_mem_map.mpr members
  · exact List.forall_mem_map.mpr index

end

section
variable {t : Ty} {types : List Ty}

theorem unionOfRegular (regular : ∀ t ∈ types, t.Regular) : (unionOf types).Regular := by
  rcases unionOfCases types with ⟨-, same⟩ | ⟨t, only, same⟩ | ⟨some, same⟩
  · rw [same]
    exact primitiveRegular .none
  · rw [same]
    exact choicesKeep regular (only ▸ List.mem_singleton_self t)
  · rw [same]
    exact unionRegular some fun t held => choicesKeep regular held

theorem Regular.unwrapped (regular : t.Regular) : t.unwrapParens.Regular := by
  induction regular with
  | @intro t here inside ih =>
    cases t with
    | parenthesized inner => exact ih inner List.mem_cons_self
    | _ => exact .intro here inside

theorem Regular.widened (regular : t.Regular) : t.widen.Regular := by
  rcases widenCases t with ⟨v, -, same⟩ | ⟨-, same⟩
  · rw [same]
    exact primitiveRegular v.kind
  · rw [same]
    exact regular.unwrapped

theorem Regular.nameInterface (regular : t.Regular) (name : String) :
    (Quill.nameInterface name t).Regular := by
  unfold Quill.nameInterface
  split
  · exact .intro ⟨trivial, trivial, regular.here.keyed⟩ fun s held => regular.inside held
  · exact regular

end

section
variable {name : Option String} {ms : List TyMember} {is : List TyIndex} {t : Ty}

theorem Regular.indexed (regular : (interface name ms is).Regular) {kind : Primitive}
    (found : indexType is kind = some t) : t.Regular := by
  obtain ⟨i, there, rfl⟩ := Option.map_eq_some_iff.mp found
  exact regular.inside (indexInside (List.mem_of_find?_eq_some there))

theorem Regular.looked (regular : (interface name ms is).Regular) {key : PropertyName}
    (found : lookupMember ms is key = some t) : t.Regular := by
  unfold lookupMember at found
  split at found
  · rename_i m there
    cases found
    exact regular.inside (memberInside (List.mem_of_find?_eq_some there))
  · exact regular.indexed found

theorem Regular.member (regular : (interface name ms is).Regular) {key : Bound.Key}
    (found : memberType ms is key = some t) : t.Regular := by
  unfold memberType at found
  split at found
  · exact regular.looked found
  · split at found
    · cases found
      exact anyRegular
    · obtain ⟨kind, -, found⟩ := Option.bind_eq_some_iff.mp found
      exact regular.indexed found

end

end Ty

theorem insertMember_eq (members : List TyMember) (m : TyMember) :
    insertMember members m = inserted TyMember.key members m := rfl

theorem insertIndex_eq (index : List TyIndex) (i : TyIndex) :
    insertIndex index i = inserted TyIndex.kind index i := rfl

namespace Shape

variable {shape : Shape} {type : Ty}

theorem emptyRegular : empty.type.Regular := Ty.interfaceRegular .nil .nil nofun nofun

theorem memberRegular (regular : shape.type.Regular) (types : type.Regular) (key : PropertyName)
    (mutable : Bool) : (shape.addMember key type mutable).type.Regular := by
  have keyed := regular.here.keyed
  refine Ty.interfaceRegular ?_ keyed.2 (fun m held => ?_) fun i held => ?_
  · rw [addMember, insertMember_eq]
    exact insertedDistinct keyed.1
  · rw [addMember, insertMember_eq] at held
    rcases insertedFrom held with rfl | held
    · exact types
    · exact regular.inside (Ty.memberInside held)
  · exact regular.inside (Ty.indexInside held)

theorem indexRegular (regular : shape.type.Regular) (types : type.Regular) (kind : Primitive) :
    (shape.addIndex kind type).type.Regular := by
  have keyed := regular.here.keyed
  refine Ty.interfaceRegular keyed.1 ?_ (fun m held => ?_) fun i held => ?_
  · rw [addIndex, insertIndex_eq]
    exact insertedDistinct keyed.2
  · exact regular.inside (Ty.memberInside held)
  · rw [addIndex, insertIndex_eq] at held
    rcases insertedFrom held with rfl | held
    · exact types
    · exact regular.inside (Ty.indexInside held)

end Shape

theorem resultRegular {result : Ty} (regular : result.Regular) (operands : List Ty) :
    (resultType operands result).Regular := by
  unfold resultType
  split
  · exact Ty.anyRegular
  · exact regular

theorem contextualRegular {expected : Option Ty} (regular : ∀ t ∈ expected, t.Regular)
    (key : Bound.Key) : ∀ t ∈ contextual expected key, t.Regular := by
  intro t found
  obtain ⟨whole, given, found⟩ := Option.bind_eq_some_iff.mp found
  have unwrapped := (regular whole given).unwrapped
  split at found
  · rename_i same
    obtain ⟨name, -, found⟩ := Option.bind_eq_some_iff.mp found
    exact (same ▸ unwrapped).looked found
  · cases found

end Quill
