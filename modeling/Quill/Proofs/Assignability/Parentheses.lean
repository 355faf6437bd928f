import Mathlib.Logic.Relation
import Quill.Proofs.Assignability.Exchange

/-! Parentheses in types. They can be put around types that stand in a type, at any depth, and taken
away again: the types that fit, and those that are fitted, stay the same. -/
namespace Quill

namespace Ty

/-- The second type is the first with one pair of parentheses more, around the whole of it or
around one type in it. -/
inductive Wrapped : Ty → Ty → Prop where
  | whole (t : Ty) : Wrapped t (parenthesized t)
  | argument (name : String) (front behind : List Ty) {s s' : Ty} (inner : Wrapped s s') :
      Wrapped (named name (front ++ s :: behind)) (named name (front ++ s' :: behind))
  | element {s s' : Ty} (inner : Wrapped s s') : Wrapped (array s) (array s')
  | param (front behind : List TyParam) (name : String) (hasDefault : Bool) (ret : Ty) {s s' : Ty}
      (inner : Wrapped s s') :
      Wrapped (function (front ++ .mk name s hasDefault :: behind) ret)
        (function (front ++ .mk name s' hasDefault :: behind) ret)
  | ret (params : List TyParam) {s s' : Ty} (inner : Wrapped s s') :
      Wrapped (function params s) (function params s')
  | member (name : Option String) (front behind : List TyMember) (index : List TyIndex)
      (key : PropertyName) (mutable : Bool) {s s' : Ty} (inner : Wrapped s s') :
      Wrapped (interface name (front ++ .mk key s mutable :: behind) index)
        (interface name (front ++ .mk key s' mutable :: behind) index)
  | signature (name : Option String) (members : List TyMember) (front behind : List TyIndex)
      (kind : Primitive) {s s' : Ty} (inner : Wrapped s s') :
      Wrapped (interface name members (front ++ .mk kind s :: behind))
        (interface name members (front ++ .mk kind s' :: behind))
  | alternative (front behind : List Ty) {s s' : Ty} (inner : Wrapped s s') :
      Wrapped (union (front ++ s :: behind)) (union (front ++ s' :: behind))
  | part (front behind : List Ty) {s s' : Ty} (inner : Wrapped s s') :
      Wrapped (intersection (front ++ s :: behind)) (intersection (front ++ s' :: behind))
  | inner {s s' : Ty} (inner : Wrapped s s') : Wrapped (parenthesized s) (parenthesized s')

abbrev Rewrapped : Ty → Ty → Prop := Relation.EqvGen Wrapped

theorem onePlace {α : Type} {R : α → α → Prop} (self : ∀ x, R x x) {x x' : α} (related : R x x')
    (front behind : List α) : List.Forall₂ R (front ++ x :: behind) (front ++ x' :: behind) := by
  induction front with
  | nil => exact .cons related (List.forall₂_same.mpr fun x _ => self x)
  | cons y front ih => exact .cons (self y) ih

theorem Wrapped.interchangeable {s s' : Ty} (wrapped : s.Wrapped s') : s.Interchangeable s' := by
  have params (name : String) (hasDefault : Bool) (front behind : List TyParam) {s s' : Ty}
      (alike : s.Interchangeable s') : List.Forall₂ (fun p p' => p.type.Interchangeable p'.type)
        (front ++ .mk name s hasDefault :: behind) (front ++ .mk name s' hasDefault :: behind) := by
    refine onePlace (R := fun p p' : TyParam => p.type.Interchangeable p'.type) ?_ ?_ front behind
    · exact fun p => .refl p.type
    · exact alike
  have members (key : PropertyName) (mutable : Bool) (front behind : List TyMember) {s s' : Ty}
      (alike : s.Interchangeable s') : MembersExchange (front ++ .mk key s mutable :: behind)
        (front ++ .mk key s' mutable :: behind) :=
    .inPlace (onePlace (fun m => ⟨rfl, .refl m.type⟩) ⟨rfl, alike⟩ front behind)
  have index (kind : Primitive) (front behind : List TyIndex) {s s' : Ty}
      (alike : s.Interchangeable s') :
      IndexExchange (front ++ .mk kind s :: behind) (front ++ .mk kind s' :: behind) :=
    .inPlace (onePlace (fun i => ⟨rfl, .refl i.type⟩) ⟨rfl, alike⟩ front behind)
  have sameMembers (ms : List TyMember) : MembersExchange ms ms :=
    .inPlace (List.forall₂_same.mpr fun m _ => ⟨rfl, .refl m.type⟩)
  have sameIndex (is : List TyIndex) : IndexExchange is is :=
    .inPlace (List.forall₂_same.mpr fun i _ => ⟨rfl, .refl i.type⟩)
  induction wrapped with
  | whole t => exact (Interchangeable.parenthesized t).symm
  | argument name front behind _ ih => exact .named name (onePlace .refl ih front behind)
  | element _ ih => exact .array ih
  | param front behind name hasDefault ret _ ih =>
    exact .function (params name hasDefault front behind ih) (.refl ret)
  | ret _ _ ih => exact .function (List.forall₂_same.mpr fun p _ => .refl p.type) ih
  | member name front behind is key mutable _ ih =>
    exact .interface name (members key mutable front behind ih)
      (members key mutable front behind ih.symm) (sameIndex is) (sameIndex is)
  | signature name ms front behind kind _ ih =>
    exact .interface name (sameMembers ms) (sameMembers ms) (index kind front behind ih)
      (index kind front behind ih.symm)
  | alternative front behind _ ih => exact .union (onePlace .refl ih front behind)
  | part front behind _ ih => exact .intersection (onePlace .refl ih front behind)
  | inner _ ih =>
    exact (Interchangeable.parenthesized _).trans (ih.trans (.symm (.parenthesized _)))

theorem Rewrapped.interchangeable {s s' : Ty} (rewrapped : s.Rewrapped s') :
    s.Interchangeable s' := by
  induction rewrapped with
  | rel s s' wrapped => exact wrapped.interchangeable
  | refl s => exact .refl s
  | symm s s' _ alike => exact alike.symm
  | trans s s' s'' _ _ first second => exact first.trans second

/-- Parentheses do not count, wherever they stand in the two types. -/
theorem parenthesesIgnored {a a' b b' : Ty} (left : a.Rewrapped a') (right : b.Rewrapped b') :
    a.assignableTo b = a'.assignableTo b' := by
  rw [Bool.eq_iff_iff]
  exact (left.interchangeable b).1.trans (right.interchangeable a').2

-- `fn(x: int[]) -> string | 1`.
def labelled : Ty := function [.mk "x" (array int) false] (union [string, literal (.int 1)])

-- `(fn(x: ((int))[]) -> string | (1))`.
def labelledWrapped : Ty :=
  parenthesized (function [.mk "x" (array (parenthesized (parenthesized int))) false]
    (union [string, parenthesized (literal (.int 1))]))

-- `fn(x: int[]) -> (string | int)`.
def counted : Ty := function [.mk "x" (array int) false] (parenthesized (union [string, int]))

theorem labelsFitWrapped : labelled.Rewrapped labelledWrapped ∧
    counted.Rewrapped (function [.mk "x" (array int) false] (union [string, int])) ∧
    labelledWrapped.assignableTo (function [.mk "x" (array int) false] (union [string, int])) =
      true := by
  have left : labelled.Rewrapped labelledWrapped := by
    have once : Wrapped (array int) (array (parenthesized int)) := .element (.whole int)
    have twice : Wrapped (array (parenthesized int)) (array (parenthesized (parenthesized int))) :=
      .element (.whole (parenthesized int))
    refine .trans _ _ _ (.rel _ _ (.param [] [] "x" false _ once)) ?_
    refine .trans _ _ _ (.rel _ _ (.param [] [] "x" false _ twice)) ?_
    refine .trans _ _ _ (.rel _ _ (.ret _ (.alternative [string] [] (.whole _)))) ?_
    exact .rel _ _ (.whole _)
  have right : counted.Rewrapped (function [.mk "x" (array int) false] (union [string, int])) :=
    .symm _ _ (.rel _ _ (.ret _ (.whole _)))
  refine ⟨left, right, (parenthesesIgnored left right).symm.trans ?_⟩
  simp [labelled, counted, assignableTo, paramsAssignable, someAssignableTo, assignableToSome,
    LitValue.kind]

end Ty

end Quill
