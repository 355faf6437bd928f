import Quill.Proofs.Assignability.Exchange
import Quill.Proofs.Assignability.Reflexive

/-! Structural equality of types. It is symmetric, and types that are the same can take each other's
place, also where their interfaces list members in different orders. -/
namespace Quill

def TyMember.mutable : TyMember → Bool
  | .mk _ _ mutable => mutable

namespace Ty

theorem allSame_iff {ss ts : List Ty} :
    allSame ss ts = true ↔ List.Forall₂ (fun s t => s.same t = true) ss ts := by
  induction ss generalizing ts with
  | nil => cases ts <;> simp [allSame]
  | cons s rest ih => cases ts <;> simp [allSame, ih]

theorem paramsSame_iff {ps qs : List TyParam} : paramsSame ps qs = true ↔
    List.Forall₂ (fun p q => p.name = q.name ∧ p.type.same q.type = true ∧
      p.hasDefault = q.hasDefault) ps qs := by
  induction ps generalizing qs with
  | nil => cases qs <;> simp [paramsSame]
  | cons p ps ih =>
    obtain ⟨_, _, _⟩ := p
    rcases qs with _ | ⟨⟨_, _, _⟩, qs⟩ <;>
      simp [paramsSame, ih, TyParam.name, TyParam.type, TyParam.hasDefault, and_assoc]

theorem membersSame_iff {ms others : List TyMember} : membersSame ms others = true ↔
    Lists TyMember.key (fun m o => m.type.same o.type = true ∧ m.mutable = o.mutable) ms
      others := by
  unfold Lists
  induction ms with
  | nil => simp [membersSame]
  | cons m rest ih =>
    obtain ⟨key, type, mutable⟩ := m
    rw [membersSame, Bool.and_eq_true, ih, List.forall_mem_cons]
    refine and_congr_left fun _ => ?_
    change _ ↔ ∃ o, others.find? (·.key = key) = some o ∧ _
    cases others.find? (·.key = key) with
    | none => simp
    | some o =>
      obtain ⟨_, _, _⟩ := o
      simp [TyMember.type, TyMember.mutable]

theorem indexSame_iff {is others : List TyIndex} : indexSame is others = true ↔
    Lists TyIndex.kind (fun i o => i.type.same o.type = true) is others := by
  unfold Lists
  induction is with
  | nil => simp [indexSame]
  | cons i rest ih =>
    obtain ⟨kind, type⟩ := i
    rw [indexSame, Bool.and_eq_true, ih, List.forall_mem_cons]
    refine and_congr_left fun _ => ?_
    change _ ↔ ∃ o, others.find? (·.kind = kind) = some o ∧ _
    cases others.find? (·.kind = kind) with
    | none => simp
    | some o =>
      obtain ⟨_, _⟩ := o
      simp [TyIndex.type]

inductive Twins : Ty → Ty → Prop where
  | any : Twins any any
  | primitive (p : Primitive) : Twins (primitive p) (primitive p)
  | literal {v w : LitValue} (alike : v.same w = true) : Twins (literal v) (literal w)
  | named (name : String) {ss ts : List Ty}
      (args : List.Forall₂ (fun s t => s.same t = true) ss ts) :
      Twins (named name ss) (named name ts)
  | array {s t : Ty} (elements : s.same t = true) : Twins (array s) (array t)
  | function {ps qs : List TyParam} {r r' : Ty}
      (params : List.Forall₂ (fun p q => p.name = q.name ∧ p.type.same q.type = true ∧
        p.hasDefault = q.hasDefault) ps qs)
      (returns : r.same r' = true) : Twins (function ps r) (function qs r')
  | interface (name : Option String) {ms ms' : List TyMember} {is is' : List TyIndex}
      (count : ms.length = ms'.length)
      (members : Lists TyMember.key (fun m o => m.type.same o.type = true ∧ m.mutable = o.mutable)
        ms ms')
      (count' : is.length = is'.length)
      (index : Lists TyIndex.kind (fun i o => i.type.same o.type = true) is is') :
      Twins (interface name ms is) (interface name ms' is')
  | union {ss ts : List Ty} (members : List.Forall₂ (fun s t => s.same t = true) ss ts) :
      Twins (union ss) (union ts)
  | intersection {ss ts : List Ty} (members : List.Forall₂ (fun s t => s.same t = true) ss ts) :
      Twins (intersection ss) (intersection ts)
  | parenthesized {s t : Ty} (inner : s.same t = true) : Twins (parenthesized s) (parenthesized t)

theorem same_iff {s t : Ty} : s.same t = true ↔ Twins s t := by
  constructor
  · intro alike
    cases s with
    | any => cases t <;> first | exact .any | simp [same] at alike
    | primitive p =>
      cases t with
      | primitive q =>
        obtain rfl : p = q := by simpa [same] using alike
        exact .primitive p
      | _ => simp [same] at alike
    | literal v =>
      cases t <;> first | exact .literal (by simpa [same] using alike) | simp [same] at alike
    | named name ss =>
      cases t with
      | named other ts =>
        rw [same, Bool.and_eq_true, allSame_iff] at alike
        obtain rfl := of_decide_eq_true alike.1
        exact .named name alike.2
      | _ => simp [same] at alike
    | array element =>
      cases t <;> first | exact .array (by simpa [same] using alike) | simp [same] at alike
    | function ps r =>
      cases t with
      | function qs r' =>
        rw [same, Bool.and_eq_true, paramsSame_iff] at alike
        exact .function alike.1 alike.2
      | _ => simp [same] at alike
    | interface name ms is =>
      cases t with
      | interface other ms' is' =>
        simp only [same, Bool.and_eq_true, decide_eq_true_eq, membersSame_iff,
          indexSame_iff] at alike
        obtain ⟨⟨⟨⟨rfl, count⟩, members⟩, count'⟩, index⟩ := alike
        exact .interface name count members count' index
      | _ => simp [same] at alike
    | union ss =>
      cases t with
      | union ts =>
        rw [same, allSame_iff] at alike
        exact .union alike
      | _ => simp [same] at alike
    | intersection ss =>
      cases t with
      | intersection ts =>
        rw [same, allSame_iff] at alike
        exact .intersection alike
      | _ => simp [same] at alike
    | parenthesized inner =>
      cases t <;> first | exact .parenthesized (by simpa [same] using alike) | simp [same] at alike
  · intro twins
    cases twins with
    | any | primitive _ => simp [same]
    | literal alike | array alike | parenthesized alike => rw [same]; exact alike
    | named name args =>
      rw [same, Bool.and_eq_true, allSame_iff]
      exact ⟨decide_eq_true rfl, args⟩
    | function params returns =>
      rw [same, Bool.and_eq_true, paramsSame_iff]
      exact ⟨params, returns⟩
    | interface name count members count' index =>
      simp only [same, Bool.and_eq_true, decide_eq_true_eq, membersSame_iff, indexSame_iff]
      exact ⟨⟨⟨⟨trivial, count⟩, members⟩, count'⟩, index⟩
    | union members | intersection members =>
      rw [same, allSame_iff]
      exact members

theorem pairsKept {α : Type} {R S : α → α → Prop} {xs ys : List α}
    (kept : ∀ x ∈ xs, ∀ y ∈ ys, R x y → S x y) (pairs : List.Forall₂ R xs ys) :
    List.Forall₂ S xs ys := by
  induction pairs with
  | nil => exact .nil
  | cons related rest ih =>
    refine .cons (kept _ List.mem_cons_self _ List.mem_cons_self related)
      (ih fun x held y held' => ?_)
    exact kept x (List.mem_cons_of_mem _ held) y (List.mem_cons_of_mem _ held')

theorem sameSymm {s t : Ty} (left : s.Throughout Keyed) (right : t.Throughout Keyed)
    (alike : s.same t = true) : t.same s = true := by
  induction left generalizing t with
  | @intro s here inside ih =>
    rw [same_iff] at alike ⊢
    have here' := right.here
    have turns {r r' : Ty} (held : r ∈ s.components) (held' : r' ∈ t.components)
        (alike : r.same r' = true) : r'.same r = true := ih r held (right.inside held') alike
    cases alike with
    | any => exact .any
    | primitive p => exact .primitive p
    | literal alike => exact .literal (LitValue.sameSymm alike)
    | named name args =>
      exact .named name (pairsKept (fun x held y held' => turns held held') args).flip
    | array alike => exact .array (turns List.mem_cons_self List.mem_cons_self alike)
    | function params returns =>
      refine .function (pairsKept (fun p held q held' both => ?_) params).flip
        (turns returnInside returnInside returns)
      exact ⟨both.1.symm, turns (paramInside held) (paramInside held') both.2.1, both.2.2.symm⟩
    | interface name count members count' index =>
      refine .interface name count.symm (members.turned here.1 here'.1 count ?_) count'.symm
        (index.turned here.2 here'.2 count' ?_)
      · exact fun m held o held' both =>
          ⟨turns (memberInside held) (memberInside held') both.1, both.2.symm⟩
      · exact fun i held o held' alike => turns (indexInside held) (indexInside held') alike
    | union members =>
      exact .union (pairsKept (fun x held y held' => turns held held') members).flip
    | intersection members =>
      exact .intersection (pairsKept (fun x held y held' => turns held held') members).flip
    | parenthesized alike =>
      exact .parenthesized (turns List.mem_cons_self List.mem_cons_self alike)

theorem sameExchange {s t : Ty} (left : s.Throughout Keyed) (right : t.Throughout Keyed)
    (alike : s.same t = true) : s.Interchangeable t := by
  induction left generalizing t with
  | @intro s here inside ih =>
    have here' := right.here
    have each {r r' : Ty} (held : r ∈ s.components) (held' : r' ∈ t.components)
        (alike : r.same r' = true) : r.Interchangeable r' := ih r held (right.inside held') alike
    rw [same_iff] at alike
    cases alike with
    | any | primitive _ => exact .refl _
    | literal alike =>
      exact .ofCore trivial trivial (literalCarries alike)
        (literalCarries (LitValue.sameSymm alike))
    | named name args => exact .named name (pairsKept (fun x held y held' => each held held') args)
    | array alike => exact .array (each List.mem_cons_self List.mem_cons_self alike)
    | function params returns =>
      refine .function (pairsKept (fun p held q held' both => ?_) params)
        (each returnInside returnInside returns)
      exact each (paramInside held) (paramInside held') both.2.1
    | @interface name ms ms' is is' count members count' index =>
      have forth : Lists TyMember.key (fun m o => m.type.Interchangeable o.type) ms ms' :=
        members.imp fun m held o held' both => each (memberInside held) (memberInside held') both.1
      have forth' : Lists TyIndex.kind (fun i o => i.type.Interchangeable o.type) is is' :=
        index.imp fun i held o held' alike => each (indexInside held) (indexInside held') alike
      have back : Lists TyMember.key (fun o m => o.type.Interchangeable m.type) ms' ms :=
        forth.turned here.1 here'.1 count fun _ _ _ _ => Interchangeable.symm
      have back' : Lists TyIndex.kind (fun o i => o.type.Interchangeable i.type) is' is :=
        forth'.turned here.2 here'.2 count' fun _ _ _ _ => Interchangeable.symm
      exact .interface name (.ofLists forth back .symm) (.ofLists back forth .symm)
        (.ofLists forth' back' .symm) (.ofLists back' forth' .symm)
    | union members => exact .union (pairsKept (fun x held y held' => each held held') members)
    | intersection members =>
      exact .intersection (pairsKept (fun x held y held' => each held held') members)
    | parenthesized alike =>
      have inner := each List.mem_cons_self List.mem_cons_self alike
      exact (Interchangeable.parenthesized _).trans (inner.trans (.symm (.parenthesized _)))

end Ty

end Quill
