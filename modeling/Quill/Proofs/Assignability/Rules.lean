import Mathlib.Data.List.Forall2
import Quill.Proofs.Assignability.Keys
import Quill.Ty.Assignable

/-! The rules of assignability, one for each kind of type that stands on a side. Parentheses go
away, unions and intersections are taken apart in a fixed order, and what is left are types that
match by what they are made of. -/
namespace Quill

theorem TyParam.typeSmaller (p : TyParam) : sizeOf p.type < sizeOf p := by
  cases p
  simp only [TyParam.type, TyParam.mk.sizeOf_spec]
  omega

theorem TyMember.typeSmaller (m : TyMember) : sizeOf m.type < sizeOf m := by
  cases m
  simp only [TyMember.type, TyMember.mk.sizeOf_spec]
  omega

theorem TyIndex.typeSmaller (i : TyIndex) : sizeOf i.type < sizeOf i := by
  cases i
  simp only [TyIndex.type, TyIndex.mk.sizeOf_spec]
  omega

namespace Ty

def components : Ty → List Ty
  | any | primitive _ | literal _ => []
  | named _ args => args
  | array element => [element]
  | function params ret => params.map (·.type) ++ [ret]
  | interface _ members index => members.map (·.type) ++ index.map (·.type)
  | union types | intersection types => types
  | parenthesized inner => [inner]

section
variable {r : Ty} {ps : List TyParam} {name : Option String} {ms : List TyMember}
  {is : List TyIndex}

theorem paramInside {p : TyParam} (held : p ∈ ps) : p.type ∈ (function ps r).components :=
  List.mem_append_left _ (List.mem_map_of_mem held)

theorem returnInside : r ∈ (function ps r).components :=
  List.mem_append_right _ (List.mem_singleton_self r)

theorem memberInside {m : TyMember} (held : m ∈ ms) :
    m.type ∈ (interface name ms is).components :=
  List.mem_append_left _ (List.mem_map_of_mem held)

theorem indexInside {i : TyIndex} (held : i ∈ is) : i.type ∈ (interface name ms is).components :=
  List.mem_append_right _ (List.mem_map_of_mem held)

end

theorem mappedSmaller {α : Type} [SizeOf α] {f : α → Ty} (smaller : ∀ x, sizeOf (f x) < sizeOf x)
    {xs : List α} {s : Ty} (within : s ∈ xs.map f) : sizeOf s < sizeOf xs := by
  obtain ⟨x, inside, rfl⟩ := List.mem_map.mp within
  exact Nat.lt_trans (smaller x) (List.sizeOf_lt_of_mem inside)

theorem componentSmaller {s t : Ty} (within : s ∈ t.components) : sizeOf s < sizeOf t := by
  cases t with
  | any | primitive _ | literal _ => cases within
  | array element | parenthesized inner =>
    cases List.mem_singleton.mp within
    simp only [array.sizeOf_spec, parenthesized.sizeOf_spec]
    omega
  | named name types | union types | intersection types =>
    have : sizeOf s < sizeOf types := List.sizeOf_lt_of_mem within
    simp only [named.sizeOf_spec, union.sizeOf_spec, intersection.sizeOf_spec]
    omega
  | function params ret =>
    rcases List.mem_append.mp within with held | held
    · have := mappedSmaller TyParam.typeSmaller held
      simp only [function.sizeOf_spec]
      omega
    · cases List.mem_singleton.mp held
      simp only [function.sizeOf_spec]
      omega
  | interface name members index =>
    rcases List.mem_append.mp within with held | held
    · have := mappedSmaller TyMember.typeSmaller held
      simp only [interface.sizeOf_spec]
      omega
    · have := mappedSmaller TyIndex.typeSmaller held
      simp only [interface.sizeOf_spec]
      omega

/-- What holds of a type and of every type in it, at any depth. -/
inductive Throughout (P : Ty → Prop) : Ty → Prop where
  | intro {t : Ty} (here : P t) (inside : ∀ s ∈ t.components, Throughout P s) : Throughout P t

namespace Throughout

variable {P Q : Ty → Prop} {t s : Ty}

theorem here (held : t.Throughout P) : P t := by
  cases held with
  | intro here inside => exact here

theorem inside (held : t.Throughout P) (within : s ∈ t.components) : s.Throughout P := by
  cases held with
  | intro here inside => exact inside s within

theorem imp (implies : ∀ t, P t → Q t) (held : t.Throughout P) : t.Throughout Q := by
  induction held with
  | intro here inside ih => exact .intro (implies _ here) ih

theorem leaf (here : P t) (flat : t.components = []) : t.Throughout P :=
  .intro here fun _ within => absurd within (flat ▸ List.not_mem_nil)

theorem node (here : P t) {types : List Ty} (made : t.components = types)
    (inside : ∀ s ∈ types, s.Throughout P) : t.Throughout P :=
  .intro here (made ▸ inside)

theorem all (held : ∀ t, P t) (t : Ty) : t.Throughout P :=
  .intro (held t) fun s _ => all held s
termination_by sizeOf t
decreasing_by exact componentSmaller ‹_›

end Throughout

def Core : Ty → Prop
  | primitive _ | literal _ | named .. | array _ | function .. | interface .. => True
  | any | union _ | intersection _ | parenthesized _ => False

inductive Shaped : Ty → Prop where
  | any : Shaped any
  | union (types : List Ty) : Shaped (union types)
  | intersection (types : List Ty) : Shaped (intersection types)
  | parenthesized (inner : Ty) : Shaped (parenthesized inner)
  | core {t : Ty} (core : t.Core) : Shaped t

theorem shaped (t : Ty) : t.Shaped := by
  cases t with
  | any => exact .any
  | union types => exact .union types
  | intersection types => exact .intersection types
  | parenthesized inner => exact .parenthesized inner
  | _ => exact .core trivial

def Single : Ty → Prop
  | intersection _ => True
  | t => t.Core

theorem intersectionSingle (types : List Ty) : (intersection types).Single := trivial

theorem Core.single {t : Ty} (core : t.Core) : t.Single := by
  cases t <;> trivial

section
variable {a b : Ty} {as bs : List Ty}

theorem parensLeft (a b : Ty) : (parenthesized a).assignableTo b = a.assignableTo b := by
  rw [assignableTo]

theorem parensRight (a b : Ty) : a.assignableTo (parenthesized b) = a.assignableTo b := by
  match a with
  | parenthesized inner => rw [parensLeft, parensLeft, parensRight inner b]
  | any | primitive _ | literal _ | named _ _ | array _ | function _ _ | interface _ _ _ | union _
  | intersection _ => rw [assignableTo]; simp

theorem anyLeft (b : Ty) : any.assignableTo b = true := by
  match b with
  | parenthesized inner => rw [parensRight, anyLeft inner]
  | any | primitive _ | literal _ | named _ _ | array _ | function _ _ | interface _ _ _ | union _
  | intersection _ => rw [assignableTo]; simp

theorem anyRight (a : Ty) : a.assignableTo any = true := by
  match a with
  | parenthesized inner => rw [parensLeft, anyRight inner]
  | any | primitive _ | literal _ | named _ _ | array _ | function _ _ | interface _ _ _ | union _
  | intersection _ => rw [assignableTo] <;> simp

theorem fitsAny {b : Ty} (known : b.isAny = true) (a : Ty) : a.assignableTo b = true := by
  match b, known with
  | any, _ => exact anyRight a
  | parenthesized inner, known =>
    rw [parensRight]
    exact fitsAny (show inner.isAny = true from known) a

theorem someAssignable_iff : someAssignableTo as b = true ↔ ∃ a ∈ as, a.assignableTo b = true := by
  induction as with
  | nil => simp [someAssignableTo]
  | cons a rest ih => simp [someAssignableTo, ih]

theorem assignableToSome_iff :
    a.assignableToSome bs = true ↔ ∃ b ∈ bs, a.assignableTo b = true := by
  induction bs with
  | nil => simp [assignableToSome]
  | cons b rest ih => simp [assignableToSome, ih]

theorem assignableToAll_iff : a.assignableToAll bs = true ↔ ∀ b ∈ bs, a.assignableTo b = true := by
  induction bs with
  | nil => simp [assignableToAll]
  | cons b rest ih => simp [assignableToAll, ih]

theorem unionLeft (as : List Ty) (b : Ty) : (union as).assignableTo b = true ↔
    b.isAny = true ∨ ∃ a ∈ as, a.assignableTo b = true := by
  match b with
  | any => simp [anyRight, isAny, unwrapParens]
  | parenthesized inner =>
    simp only [parensRight]
    exact unionLeft as inner
  | primitive _ | literal _ | named _ _ | array _ | function _ _ | interface _ _ _ | union _
  | intersection _ =>
    rw [assignableTo, someAssignable_iff] <;> simp [isAny, unwrapParens]

theorem unionRight (single : a.Single) :
    a.assignableTo (union bs) = true ↔ ∃ b ∈ bs, a.assignableTo b = true := by
  rw [← assignableToSome_iff]
  cases a <;> first | exact single.elim | (rw [assignableTo] <;> simp)

theorem intersectionRight (single : a.Single) :
    a.assignableTo (intersection bs) = true ↔ ∀ b ∈ bs, a.assignableTo b = true := by
  rw [← assignableToAll_iff]
  cases a <;> first | exact single.elim | (rw [assignableTo] <;> simp)

theorem intersectionLeft (core : b.Core) :
    (intersection as).assignableTo b = true ↔ ∃ a ∈ as, a.assignableTo b = true := by
  rw [← someAssignable_iff]
  cases b <;> first | exact core.elim | (rw [assignableTo] <;> simp)

end

theorem argsInvariant_iff {as bs : List Ty} : argsInvariant as bs = true ↔
    List.Forall₂ (fun a b => a.assignableTo b = true ∧ b.assignableTo a = true) as bs := by
  induction as generalizing bs with
  | nil => cases bs <;> simp [argsInvariant]
  | cons a as ih => cases bs <;> simp [argsInvariant, ih, and_assoc]

theorem paramsAssignable_iff {ps qs : List TyParam} : paramsAssignable ps qs = true ↔
    List.Forall₂ (fun p q => p.type.assignableTo q.type = true) ps qs := by
  induction ps generalizing qs with
  | nil => cases qs <;> simp [paramsAssignable]
  | cons p ps ih =>
    obtain ⟨_, _, _⟩ := p
    rcases qs with _ | ⟨⟨_, _, _⟩, qs⟩ <;> simp [paramsAssignable, ih, TyParam.type]

theorem memberAssignable_iff {members : List TyMember} {key : PropertyName} {type : Ty} :
    memberAssignable members key type = true ↔
      ∃ m, members.find? (·.key = key) = some m ∧ m.type.assignableTo type = true := by
  induction members with
  | nil => simp [memberAssignable]
  | cons m rest ih =>
    obtain ⟨k, a, mutable⟩ := m
    rw [memberAssignable, List.find?_cons]
    by_cases same : k = key <;> simp [same, TyMember.key, TyMember.type, ih]

theorem membersAssignable_iff {members required : List TyMember} :
    membersAssignable members required = true ↔
      ∀ m ∈ required, memberAssignable members m.key m.type = true := by
  induction required with
  | nil => simp [membersAssignable]
  | cons m rest ih =>
    obtain ⟨key, type, mutable⟩ := m
    rw [membersAssignable, Bool.and_eq_true, ih, List.forall_mem_cons]
    rfl

theorem kindAssignable_iff {index : List TyIndex} {kind : Primitive} {type : Ty} :
    kindAssignable index kind type = true ↔
      ∃ i, index.find? (·.kind = kind) = some i ∧ i.type.assignableTo type = true := by
  induction index with
  | nil => simp [kindAssignable]
  | cons i rest ih =>
    obtain ⟨k, a⟩ := i
    rw [kindAssignable, List.find?_cons]
    by_cases same : k = kind <;> simp [same, TyIndex.kind, TyIndex.type, ih]

theorem indexAssignable_iff {index required : List TyIndex} :
    indexAssignable index required = true ↔
      ∀ i ∈ required, kindAssignable index i.kind i.type = true := by
  induction required with
  | nil => simp [indexAssignable]
  | cons i rest ih =>
    obtain ⟨kind, type⟩ := i
    rw [indexAssignable, Bool.and_eq_true, ih, List.forall_mem_cons]
    rfl

theorem interfaceFits_iff {name other : Option String} {members required : List TyMember}
    {index indexRequired : List TyIndex} :
    (interface name members index).assignableTo (interface other required indexRequired) = true ↔
      Lists TyMember.key (fun r m => m.type.assignableTo r.type = true) required members ∧
      Lists TyIndex.kind (fun r i => i.type.assignableTo r.type = true) indexRequired index := by
  rw [assignableTo, Bool.and_eq_true, membersAssignable_iff, indexAssignable_iff]
  exact and_congr (forall₂_congr fun _ _ => memberAssignable_iff)
    (forall₂_congr fun _ _ => kindAssignable_iff)

inductive Matches : Ty → Ty → Prop where
  | primitive (p : Primitive) : Matches (primitive p) (primitive p)
  | literal {v w : LitValue} (same : v.same w = true) : Matches (literal v) (literal w)
  | kind (v : LitValue) : Matches (literal v) (primitive v.kind)
  | named (name : String) {as bs : List Ty}
      (args : List.Forall₂ (fun a b => a.assignableTo b = true ∧ b.assignableTo a = true) as bs) :
      Matches (named name as) (named name bs)
  | array {a b : Ty} (forth : a.assignableTo b = true) (back : b.assignableTo a = true) :
      Matches (array a) (array b)
  | function {ps qs : List TyParam} {r s : Ty}
      (params : List.Forall₂ (fun q p => q.type.assignableTo p.type = true) qs ps)
      (returns : r.assignableTo s = true) : Matches (function ps r) (function qs s)
  | interface (name other : Option String) {members required : List TyMember}
      {index indexRequired : List TyIndex}
      (present : Lists TyMember.key (fun r m => m.type.assignableTo r.type = true) required members)
      (indexed : Lists TyIndex.kind (fun r i => i.type.assignableTo r.type = true) indexRequired
        index) :
      Matches (interface name members index) (interface other required indexRequired)

theorem matches_iff {a b : Ty} (left : a.Core) (right : b.Core) :
    a.assignableTo b = true ↔ Matches a b := by
  constructor
  · intro fits
    cases a with
    | any | union _ | intersection _ | parenthesized _ => exact left.elim
    | primitive p =>
      cases b with
      | any | union _ | intersection _ | parenthesized _ => exact right.elim
      | primitive q =>
        obtain rfl : p = q := by simpa [assignableTo] using fits
        exact .primitive p
      | _ => simp [assignableTo] at fits
    | literal v =>
      cases b with
      | any | union _ | intersection _ | parenthesized _ => exact right.elim
      | primitive q =>
        obtain rfl : v.kind = q := by simpa [assignableTo] using fits
        exact .kind v
      | literal w => exact .literal (by simpa [assignableTo] using fits)
      | _ => simp [assignableTo] at fits
    | named name as =>
      cases b with
      | any | union _ | intersection _ | parenthesized _ => exact right.elim
      | named other bs =>
        rw [assignableTo, Bool.and_eq_true, argsInvariant_iff] at fits
        obtain rfl := of_decide_eq_true fits.1
        exact .named name fits.2
      | _ => simp [assignableTo] at fits
    | array element =>
      cases b with
      | any | union _ | intersection _ | parenthesized _ => exact right.elim
      | array other =>
        rw [assignableTo, Bool.and_eq_true] at fits
        exact .array fits.1 fits.2
      | _ => simp [assignableTo] at fits
    | function ps r =>
      cases b with
      | any | union _ | intersection _ | parenthesized _ => exact right.elim
      | function qs s =>
        rw [assignableTo, Bool.and_eq_true, paramsAssignable_iff] at fits
        exact .function fits.1 fits.2
      | _ => simp [assignableTo] at fits
    | interface name members index =>
      cases b with
      | any | union _ | intersection _ | parenthesized _ => exact right.elim
      | interface other required indexRequired =>
        obtain ⟨present, indexed⟩ := interfaceFits_iff.mp fits
        exact .interface name other present indexed
      | _ => simp [assignableTo] at fits
  · intro fits
    cases fits with
    | primitive p => rw [assignableTo]; simp
    | literal same => rw [assignableTo]; exact same
    | kind v => rw [assignableTo]; simp
    | named name args =>
      rw [assignableTo, Bool.and_eq_true, argsInvariant_iff]
      exact ⟨decide_eq_true rfl, args⟩
    | array forth back => rw [assignableTo, forth, back]; rfl
    | function params returns =>
      rw [assignableTo, Bool.and_eq_true, paramsAssignable_iff]
      exact ⟨params, returns⟩
    | interface name other present indexed => exact interfaceFits_iff.mpr ⟨present, indexed⟩

def Filled : Ty → Prop
  | union types => types ≠ []
  | _ => True

section
variable {a b : Ty} {as bs : List Ty}

theorem unionFits (filled : as ≠ []) :
    (union as).assignableTo b = true ↔ ∃ a ∈ as, a.assignableTo b = true := by
  rw [unionLeft]
  refine ⟨fun fits => fits.elim (fun known => ?_) id, .inr⟩
  obtain ⟨a, held⟩ := List.exists_mem_of_ne_nil as filled
  exact ⟨a, held, fitsAny known a⟩

theorem fitsUnion (left : a.Throughout Filled) (filled : bs ≠ []) :
    a.assignableTo (union bs) = true ↔ ∃ b ∈ bs, a.assignableTo b = true := by
  induction left with
  | @intro a here inside ih =>
    cases a.shaped with
    | any =>
      obtain ⟨b, held⟩ := List.exists_mem_of_ne_nil bs filled
      exact iff_of_true (anyLeft _) ⟨b, held, anyLeft b⟩
    | union as =>
      have each : (union as).assignableTo (union bs) = true ↔
          ∃ a ∈ as, ∃ b ∈ bs, a.assignableTo b = true := by
        rw [unionFits here]
        exact exists_congr fun a => and_congr_right fun held => ih a held
      rw [each]
      constructor
      · rintro ⟨a, held, b, held', fits⟩
        exact ⟨b, held', (unionFits here).mpr ⟨a, held, fits⟩⟩
      · rintro ⟨b, held', fits⟩
        obtain ⟨a, held, fits⟩ := (unionFits here).mp fits
        exact ⟨a, held, b, held', fits⟩
    | intersection as => exact unionRight (intersectionSingle as)
    | parenthesized inner =>
      simp only [parensLeft]
      exact ih inner List.mem_cons_self
    | core core => exact unionRight core.single

theorem intersectionEach (fits : a.assignableTo (intersection bs) = true) (held : b ∈ bs) :
    a.assignableTo b = true := by
  induction Throughout.all (fun _ => trivial) a with
  | @intro a here inside ih =>
    cases a.shaped with
    | any => exact anyLeft b
    | union as =>
      rcases (unionLeft as _).mp fits with known | ⟨a, member, fits⟩
      · cases known
      · exact (unionLeft as b).mpr (.inr ⟨a, member, ih a member fits⟩)
    | intersection as => exact (intersectionRight (intersectionSingle as)).mp fits b held
    | parenthesized inner =>
      rw [parensLeft] at fits ⊢
      exact ih inner List.mem_cons_self fits
    | core core => exact (intersectionRight core.single).mp fits b held

theorem intersectionSome (held : a ∈ as) (left : a.Throughout Filled) (right : b.Throughout Filled)
    (fits : a.assignableTo b = true) : (intersection as).assignableTo b = true := by
  induction right with
  | @intro b here inside ih =>
    cases b.shaped with
    | any => exact anyRight _
    | union bs =>
      obtain ⟨b, member, fits⟩ := (fitsUnion left here).mp fits
      exact (unionRight (intersectionSingle as)).mpr ⟨b, member, ih b member fits⟩
    | intersection bs =>
      exact (intersectionRight (intersectionSingle as)).mpr fun b member =>
        ih b member (intersectionEach fits member)
    | parenthesized inner =>
      rw [parensRight] at fits ⊢
      exact ih inner List.mem_cons_self fits
    | core core => exact (intersectionLeft core).mpr ⟨a, held, fits⟩

end

end Ty
end Quill
