import Quill.Proofs.Assignability.Literals
import Quill.Proofs.Assignability.Rules

/-! Assignability is transitive where neither `any` nor a union occurs. The type in the middle stays
in the middle when parameters swap the outer two and in both directions of invariant places, so the
proof is by induction on it; intersections and parentheses of the outer types are taken apart by an
induction on each. -/
namespace Quill

namespace Ty

def Definite : Ty → Prop
  | any | union _ => False
  | _ => True

def Links (b : Ty) : Prop :=
  ∀ {a c : Ty}, a.Throughout Definite → c.Throughout Definite →
    a.assignableTo b = true → b.assignableTo c = true → a.assignableTo c = true

theorem fitsIntersection {a : Ty} {bs : List Ty} (definite : a.Throughout Definite)
    (each : ∀ b ∈ bs, a.assignableTo b = true) : a.assignableTo (intersection bs) = true := by
  induction definite with
  | @intro a here inside ih =>
    cases a.shaped with
    | any | union _ => exact here.elim
    | intersection as => exact (intersectionRight (intersectionSingle as)).mpr each
    | parenthesized inner =>
      rw [parensLeft]
      exact ih inner List.mem_cons_self fun b held => by rw [← parensLeft]; exact each b held
    | core core => exact (intersectionRight core.single).mpr each

theorem invariantLinks {as bs cs : List Ty} (middle : ∀ b ∈ bs, Links b)
    (left : ∀ a ∈ as, a.Throughout Definite) (right : ∀ c ∈ cs, c.Throughout Definite)
    (first : List.Forall₂ (fun a b => a.assignableTo b = true ∧ b.assignableTo a = true) as bs)
    (second : List.Forall₂ (fun b c => b.assignableTo c = true ∧ c.assignableTo b = true) bs cs) :
    List.Forall₂ (fun a c => a.assignableTo c = true ∧ c.assignableTo a = true) as cs := by
  induction first generalizing cs with
  | nil =>
    cases second
    exact .nil
  | cons fits rest ih =>
    cases second with
    | cons fits' rest' =>
      rw [List.forall_mem_cons] at middle left right
      refine .cons ⟨middle.1 left.1 right.1 fits.1 fits'.1, ?_⟩ (ih middle.2 left.2 right.2 rest')
      exact middle.1 right.1 left.1 fits'.2 fits.2

theorem paramsLink {ps qs rs : List TyParam} (middle : ∀ q ∈ qs, Links q.type)
    (left : ∀ p ∈ ps, p.type.Throughout Definite) (right : ∀ r ∈ rs, r.type.Throughout Definite)
    (first : List.Forall₂ (fun q p => q.type.assignableTo p.type = true) qs ps)
    (second : List.Forall₂ (fun r q => r.type.assignableTo q.type = true) rs qs) :
    List.Forall₂ (fun r p => r.type.assignableTo p.type = true) rs ps := by
  induction second generalizing ps with
  | nil =>
    cases first
    exact .nil
  | cons fits rest ih =>
    cases first with
    | cons fits' rest' =>
      rw [List.forall_mem_cons] at middle left right
      exact .cons (middle.1 right.1 left.1 fits fits') (ih middle.2 left.2 right.2 rest')

theorem matchesLink {a b c : Ty} (middle : ∀ s ∈ b.components, Links s)
    (left : a.Throughout Definite) (right : c.Throughout Definite) (first : Matches a b)
    (second : Matches b c) : Matches a c := by
  have left {s : Ty} (held : s ∈ a.components) := left.inside held
  have right {s : Ty} (held : s ∈ c.components) := right.inside held
  cases first with
  | primitive p => exact second
  | kind v =>
    cases second with
    | primitive p => exact .kind v
  | literal same =>
    cases second with
    | literal same' => exact .literal (LitValue.sameTrans same same')
    | kind w => exact LitValue.sameKind same ▸ .kind _
  | named name args =>
    cases second with
    | named _ args' =>
      exact .named name (invariantLinks middle (fun _ => left) (fun _ => right) args args')
  | array forth back =>
    cases second with
    | array forth' back' =>
      have link : Links _ := middle _ List.mem_cons_self
      have left := left List.mem_cons_self
      have right := right List.mem_cons_self
      exact .array (link left right forth forth') (link right left back' back)
  | function params returns =>
    cases second with
    | function params' returns' =>
      refine .function (paramsLink (fun q held => middle _ (paramInside held))
        (fun p held => left (paramInside held)) (fun r held => right (paramInside held)) params
        params') ?_
      exact middle _ returnInside (left returnInside) (right returnInside) returns returns'
  | interface name other present indexed =>
    cases second with
    | interface _ last present' indexed' =>
      refine .interface name last
        (present'.chain present fun r held m held' o held'' fits fits' => ?_)
        (indexed'.chain indexed fun r held i held' o held'' fits fits' => ?_)
      · exact middle _ (memberInside held') (left (memberInside held'')) (right (memberInside held))
          fits' fits
      · exact middle _ (indexInside held') (left (indexInside held'')) (right (indexInside held))
          fits' fits

theorem coreLinks {b c : Ty} (core : b.Core) (core' : c.Core)
    (middle : ∀ s ∈ b.components, Links s) (right : c.Throughout Definite)
    (second : b.assignableTo c = true) {a : Ty} (left : a.Throughout Definite)
    (first : a.assignableTo b = true) : a.assignableTo c = true := by
  induction left with
  | @intro a here inside ih =>
    cases a.shaped with
    | any | union _ => exact here.elim
    | intersection as =>
      obtain ⟨s, held, fits⟩ := (intersectionLeft core).mp first
      exact (intersectionLeft core').mpr ⟨s, held, ih s held fits⟩
    | parenthesized inner =>
      rw [parensLeft] at first ⊢
      exact ih inner List.mem_cons_self first
    | core core'' =>
      exact (matches_iff core'' core').mpr (matchesLink middle (.intro here inside) right
        ((matches_iff core'' core).mp first) ((matches_iff core core').mp second))

/-- Away from `any` and unions, what fits a type fits where that type does. -/
theorem assignableThrough {a b c : Ty} (left : a.Throughout Definite)
    (middle : b.Throughout Definite) (right : c.Throughout Definite)
    (first : a.assignableTo b = true) (second : b.assignableTo c = true) :
    a.assignableTo c = true := by
  induction middle generalizing a c with
  | @intro b here inside ih =>
    induction right with
    | @intro c here' inside' ih' =>
      cases c.shaped with
      | any | union _ => exact here'.elim
      | intersection cs =>
        exact fitsIntersection left fun s held => ih' s held (intersectionEach second held)
      | parenthesized inner =>
        rw [parensRight] at second ⊢
        exact ih' inner List.mem_cons_self second
      | core core' =>
        have right : c.Throughout Definite := .intro here' inside'
        cases b.shaped with
        | any | union _ => exact here.elim
        | intersection bs =>
          obtain ⟨s, held, fits⟩ := (intersectionLeft core').mp second
          exact ih s held left right (intersectionEach first held) fits
        | parenthesized inner =>
          rw [parensRight] at first
          rw [parensLeft] at second
          exact ih inner List.mem_cons_self left right first second
        | core core => exact coreLinks core core' ih right second left first

theorem narrowedThrough :
    (function [.mk "x" int false] (intersection [literal (.int 1), array string])).assignableTo
        (parenthesized (function [.mk "x" (literal (.int 1)) false] int)) = true ∧
      (parenthesized (function [.mk "x" (literal (.int 1)) false] int)).assignableTo
        (function [.mk "x" (literal (.int 1)) false] (intersection [int, parenthesized int])) =
          true ∧
      (function [.mk "x" int false] (intersection [literal (.int 1), array string])).assignableTo
        (function [.mk "x" (literal (.int 1)) false] (intersection [int, parenthesized int])) =
          true := by
  have basic (p : Primitive) : (primitive p).Throughout Definite := .leaf trivial rfl
  have one : (literal (.int 1)).Throughout Definite := .leaf trivial rfl
  have wrapped {t : Ty} (held : t.Throughout Definite) : (parenthesized t).Throughout Definite :=
    .node trivial rfl (List.forall_mem_singleton.mpr held)
  have strings : (array string).Throughout Definite :=
    .node trivial rfl (List.forall_mem_singleton.mpr (basic .string))
  have both {s t : Ty} (left : s.Throughout Definite) (right : t.Throughout Definite) :
      ∀ r ∈ [s, t], r.Throughout Definite :=
    List.forall_mem_cons.mpr ⟨left, List.forall_mem_singleton.mpr right⟩
  have meets {s t : Ty} (left : s.Throughout Definite) (right : t.Throughout Definite) :
      (intersection [s, t]).Throughout Definite := .node trivial rfl (both left right)
  have maps {s t : Ty} (left : s.Throughout Definite) (right : t.Throughout Definite) :
      (function [.mk "x" s false] t).Throughout Definite := .node trivial rfl (both left right)
  have first : (function [.mk "x" int false]
      (intersection [literal (.int 1), array string])).assignableTo
      (parenthesized (function [.mk "x" (literal (.int 1)) false] int)) = true := by
    simp [parensRight, assignableTo, paramsAssignable, someAssignableTo, LitValue.kind]
  have second : (parenthesized (function [.mk "x" (literal (.int 1)) false] int)).assignableTo
      (function [.mk "x" (literal (.int 1)) false] (intersection [int, parenthesized int])) =
        true := by
    simp [parensLeft, parensRight, assignableTo, paramsAssignable, assignableToAll, LitValue.same]
  exact ⟨first, second, assignableThrough (maps (basic .int) (meets one strings))
    (wrapped (maps one (basic .int))) (maps one (meets (basic .int) (wrapped (basic .int)))) first
    second⟩

end Ty

end Quill
