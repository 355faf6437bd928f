import Quill.Proofs.Assignability.Literals
import Quill.Proofs.Assignability.Rules

/-! Types that can take each other's place on both sides of assignability. So can types that are
made of such types in the same way, and a type with and without parentheses. -/
namespace Quill

namespace Ty

def Interchangeable (s s' : Ty) : Prop :=
  ∀ t : Ty, (s.assignableTo t = true ↔ s'.assignableTo t = true) ∧
    (t.assignableTo s = true ↔ t.assignableTo s' = true)

section
variable {as bs : List Ty}

theorem someAlike {p q : Ty → Prop} (alike : List.Forall₂ (fun a b => p a ↔ q b) as bs) :
    (∃ a ∈ as, p a) ↔ ∃ b ∈ bs, q b := by
  induction alike with
  | nil => simp
  | cons same rest ih => simp [same, ih]

theorem eachAlike {p q : Ty → Prop} (alike : List.Forall₂ (fun a b => p a ↔ q b) as bs) :
    (∀ a ∈ as, p a) ↔ ∀ b ∈ bs, q b := by
  induction alike with
  | nil => simp
  | cons same rest ih => simp [same, ih]

end

section
variable {α β : Type} {E : α → α → Prop} {as as' : List α} {bs : List β}

theorem movedLeft {R : α → β → Prop} (moves : ∀ {a a' b}, E a a' → R a b → R a' b)
    (alike : List.Forall₂ E as as') (related : List.Forall₂ R as bs) : List.Forall₂ R as' bs := by
  induction alike generalizing bs with
  | nil => exact related
  | cons same rest ih =>
    cases related with
    | cons first others => exact .cons (moves same first) (ih others)

theorem movedRight {R : β → α → Prop} (moves : ∀ {a a' b}, E a a' → R b a → R b a')
    (alike : List.Forall₂ E as as') (related : List.Forall₂ R bs as) : List.Forall₂ R bs as' :=
  (movedLeft (R := fun a b => R b a) moves alike related.flip).flip

end

section
variable {s s' : Ty}

theorem liftRight (known : s.isAny = s'.isAny)
    (step : ∀ t : Ty, t.Single →
      (∀ r ∈ t.components, r.assignableTo s = true ↔ r.assignableTo s' = true) →
      (t.assignableTo s = true ↔ t.assignableTo s' = true)) (t : Ty) :
    t.assignableTo s = true ↔ t.assignableTo s' = true := by
  induction Throughout.all (fun _ => trivial) t with
  | @intro t here inside ih =>
    cases t.shaped with
    | any => exact iff_of_true (anyLeft s) (anyLeft s')
    | union ts =>
      rw [unionLeft, unionLeft, known]
      exact or_congr_right (exists_congr fun t => and_congr_right fun held => ih t held)
    | intersection ts => exact step _ (intersectionSingle ts) ih
    | parenthesized inner =>
      rw [parensLeft, parensLeft]
      exact ih inner List.mem_cons_self
    | core core => exact step t core.single ih

theorem liftLeft (single : s.Single) (single' : s'.Single)
    (step : ∀ t : Ty, t.Core → (s.assignableTo t = true ↔ s'.assignableTo t = true)) (t : Ty) :
    s.assignableTo t = true ↔ s'.assignableTo t = true := by
  induction Throughout.all (fun _ => trivial) t with
  | @intro t here inside ih =>
    cases t.shaped with
    | any => exact iff_of_true (anyRight s) (anyRight s')
    | union ts =>
      rw [unionRight single, unionRight single']
      exact exists_congr fun t => and_congr_right fun held => ih t held
    | intersection ts =>
      rw [intersectionRight single, intersectionRight single']
      exact forall₂_congr ih
    | parenthesized inner =>
      rw [parensRight, parensRight]
      exact ih inner List.mem_cons_self
    | core core => exact step t core

end

def Carries (s s' : Ty) : Prop :=
  ∀ t : Ty, (Matches s t → Matches s' t) ∧ (Matches t s → Matches t s')

theorem coreKnown {s : Ty} (core : s.Core) : s.isAny = false := by
  cases s <;> first | rfl | exact core.elim

namespace Interchangeable

variable {s s' s'' : Ty} {ss ss' : List Ty}

theorem refl (s : Ty) : s.Interchangeable s := fun _ => ⟨Iff.rfl, Iff.rfl⟩

theorem symm (alike : s.Interchangeable s') : s'.Interchangeable s :=
  fun t => ⟨(alike t).1.symm, (alike t).2.symm⟩

theorem trans (first : s.Interchangeable s') (second : s'.Interchangeable s'') :
    s.Interchangeable s'' :=
  fun t => ⟨(first t).1.trans (second t).1, (first t).2.trans (second t).2⟩

theorem parenthesized (s : Ty) : (parenthesized s).Interchangeable s := fun t => by
  rw [parensLeft, parensRight]
  exact ⟨Iff.rfl, Iff.rfl⟩

theorem union (alike : List.Forall₂ Interchangeable ss ss') :
    (union ss).Interchangeable (union ss') := by
  have known : (Ty.union ss).isAny = (Ty.union ss').isAny := rfl
  refine fun t => ⟨?_, liftRight known (fun t single _ => ?_) t⟩
  · rw [unionLeft, unionLeft]
    exact or_congr_right (someAlike (alike.imp fun _ _ same => (same t).1))
  · rw [unionRight single, unionRight single]
    exact someAlike (alike.imp fun _ _ same => (same t).2)

theorem intersection (alike : List.Forall₂ Interchangeable ss ss') :
    (intersection ss).Interchangeable (intersection ss') := by
  have single := intersectionSingle
  have known : (Ty.intersection ss).isAny = (Ty.intersection ss').isAny := rfl
  refine fun t => ⟨liftLeft (single ss) (single ss') (fun t core => ?_) t,
    liftRight known (fun t single _ => ?_) t⟩
  · rw [intersectionLeft core, intersectionLeft core]
    exact someAlike (alike.imp fun _ _ same => (same t).1)
  · rw [intersectionRight single, intersectionRight single]
    exact eachAlike (alike.imp fun _ _ same => (same t).2)

theorem ofCore (core : s.Core) (core' : s'.Core) (forth : s.Carries s') (back : s'.Carries s) :
    s.Interchangeable s' := by
  have known : s.isAny = s'.isAny := (coreKnown core).trans (coreKnown core').symm
  refine fun t => ⟨liftLeft core.single core'.single (fun t right => ?_) t,
    liftRight known (fun t single inside => ?_) t⟩
  · rw [matches_iff core right, matches_iff core' right]
    exact ⟨(forth t).1, (back t).1⟩
  · cases t.shaped with
    | any | union _ | parenthesized _ => exact single.elim
    | intersection ts =>
      rw [intersectionLeft core, intersectionLeft core']
      exact exists_congr fun t => and_congr_right fun held => inside t held
    | core left =>
      rw [matches_iff left core, matches_iff left core']
      exact ⟨(forth t).2, (back t).2⟩

end Interchangeable

section
variable {v w : LitValue} {s s' r r' : Ty} {ss ss' : List Ty} {ps ps' : List TyParam}

theorem literalCarries (same : v.same w = true) : (literal v).Carries (literal w) := by
  refine fun t => ⟨fun fits => ?_, fun fits => ?_⟩
  · cases fits with
    | literal same' => exact .literal (LitValue.sameTrans (LitValue.sameSymm same) same')
    | kind _ => exact LitValue.sameKind same ▸ .kind w
  · cases fits with
    | literal same' => exact .literal (LitValue.sameTrans same' same)

theorem arrayCarries (alike : s.Interchangeable s') : (array s).Carries (array s') := by
  refine fun t => ⟨fun fits => ?_, fun fits => ?_⟩
  · cases fits with
    | array forth back => exact .array ((alike _).1.mp forth) ((alike _).2.mp back)
  · cases fits with
    | array forth back => exact .array ((alike _).2.mp forth) ((alike _).1.mp back)

theorem namedCarries (name : String) (alike : List.Forall₂ Interchangeable ss ss') :
    (named name ss).Carries (named name ss') := by
  refine fun t => ⟨fun fits => ?_, fun fits => ?_⟩
  · cases fits with
    | named _ args =>
      exact .named name (movedLeft (fun same both =>
        ⟨(same _).1.mp both.1, (same _).2.mp both.2⟩) alike args)
  · cases fits with
    | named _ args =>
      exact .named name (movedRight (fun same both =>
        ⟨(same _).2.mp both.1, (same _).1.mp both.2⟩) alike args)

theorem functionCarries
    (alike : List.Forall₂ (fun p p' => p.type.Interchangeable p'.type) ps ps')
    (returned : r.Interchangeable r') : (function ps r).Carries (function ps' r') := by
  refine fun t => ⟨fun fits => ?_, fun fits => ?_⟩
  · cases fits with
    | function params returns =>
      exact .function (movedRight (fun same fits => (same _).2.mp fits) alike params)
        ((returned _).1.mp returns)
  · cases fits with
    | function params returns =>
      exact .function (movedLeft (fun same fits => (same _).1.mp fits) alike params)
        ((returned _).2.mp returns)

end

section
variable {ms ms' : List TyMember} {is is' : List TyIndex}

abbrev MembersExchange : List TyMember → List TyMember → Prop :=
  Replaces TyMember.key fun m m' => m.type.Interchangeable m'.type

abbrev IndexExchange : List TyIndex → List TyIndex → Prop :=
  Replaces TyIndex.kind fun i i' => i.type.Interchangeable i'.type

theorem interfaceCarries (name name' : Option String) (members : MembersExchange ms ms')
    (index : IndexExchange is is') : (interface name ms is).Carries (interface name' ms' is') := by
  refine fun t => ⟨fun fits => ?_, fun fits => ?_⟩
  · cases fits with
    | interface _ other present indexed =>
      exact .interface name' other (members.right present fun same fits => (same _).1.mp fits)
        (index.right indexed fun same fits => (same _).1.mp fits)
  · cases fits with
    | interface other _ present indexed =>
      exact .interface other name' (members.left present fun same fits => (same _).2.mp fits)
        (index.left indexed fun same fits => (same _).2.mp fits)

end

namespace Interchangeable

variable {s s' r r' : Ty} {ss ss' : List Ty} {ps ps' : List TyParam} {ms ms' : List TyMember}
  {is is' : List TyIndex}

theorem named (name : String) (alike : List.Forall₂ Interchangeable ss ss') :
    (named name ss).Interchangeable (named name ss') :=
  .ofCore trivial trivial (namedCarries name alike)
    (namedCarries name (alike.flip.imp fun _ _ => symm))

theorem array (alike : s.Interchangeable s') : (array s).Interchangeable (array s') :=
  .ofCore trivial trivial (arrayCarries alike) (arrayCarries alike.symm)

theorem function (alike : List.Forall₂ (fun p p' => p.type.Interchangeable p'.type) ps ps')
    (returned : r.Interchangeable r') : (function ps r).Interchangeable (function ps' r') :=
  .ofCore trivial trivial (functionCarries alike returned)
    (functionCarries (alike.flip.imp fun _ _ => symm) returned.symm)

theorem interface (name : Option String) (members : MembersExchange ms ms')
    (members' : MembersExchange ms' ms) (index : IndexExchange is is')
    (index' : IndexExchange is' is) :
    (interface name ms is).Interchangeable (interface name ms' is') :=
  .ofCore trivial trivial (interfaceCarries name name members index)
    (interfaceCarries name name members' index')

end Interchangeable

end Ty

end Quill
