import Quill.Proofs.Evaluation.Chains

/-! Scopes of a heap, however it was made. Scopes are made inside older ones, so the way out of a
scope comes to an end and passes none twice. An assignment changes one variable of one scope: the
nearest on the way that has the name, or the scope itself if none has. -/
namespace Quill

namespace ScopeHeap

/-- Heaps in which scopes are made on their own or inside one that is there, and variables are
defined and assigned. -/
inductive Made : ScopeHeap → Prop where
  | empty : Made ⟨#[]⟩
  | global {h : ScopeHeap} (made : h.Made) : Made (h.add none).2
  | child {h : ScopeHeap} {scope : Nat} (made : h.Made) (inside : scope < h.frames.size) :
      Made (h.child scope).2
  | define {h : ScopeHeap} {scope : Nat} (made : h.Made) (inside : scope < h.frames.size)
      (name : String) (value : Value) : Made (h.define scope name value)
  | assign {h : ScopeHeap} {scope : Nat} (made : h.Made) (inside : scope < h.frames.size)
      (name : String) (value : Value) : Made (h.assign scope name value)

def around? (h : ScopeHeap) (scope : Nat) : Option (Option Nat) := h.frames[scope]?.map (·.enclosing)

def own? (h : ScopeHeap) (scope : Nat) (name : String) : Option Value :=
  h.frames[scope]?.bind (·.get? name)

inductive Way (h : ScopeHeap) : Nat → List Nat → Prop where
  | outermost {scope : Nat} (last : h.around? scope = some none) : Way h scope [scope]
  | inner {scope next : Nat} {way : List Nat} (enclosed : h.around? scope = some (some next))
      (rest : Way h next way) : Way h scope (scope :: way)

def Nearest (h : ScopeHeap) (name : String) (scope place : Nat) : Prop :=
  ∃ inner outer, h.Way scope (inner ++ place :: outer) ∧ (h.own? place name).isSome ∧
    ∀ i ∈ inner, h.own? i name = none

def Nowhere (h : ScopeHeap) (name : String) (scope : Nat) : Prop :=
  ∃ way, h.Way scope way ∧ ∀ i ∈ way, h.own? i name = none

structure Assigns (h : ScopeHeap) (scope : Nat) (name : String) (value : Value) (k : ScopeHeap)
    (place : Nat) : Prop where
  target : h.Nearest name scope place ∨ h.Nowhere name scope ∧ place = scope
  values : ∀ i other, k.own? i other =
    if i = place ∧ other = name then some value else h.own? i other
  scopes : ∀ i, k.around? i = h.around? i
  reads : k.get? scope name = some value
  otherNames : ∀ from' other, other ≠ name → k.get? from' other = h.get? from' other
  otherPlaces : ∀ from', ¬ k.Nearest name from' place → k.get? from' name = h.get? from' name

def Ordered (h : ScopeHeap) : Prop := ∀ i next, h.around? i = some (some next) → next < i

section
variable {h k : ScopeHeap} {scope place : Nat} {name : String} {value : Value} {way : List Nat}

theorem definedAround (h : ScopeHeap) (scope : Nat) (name : String) (value : Value) (i : Nat) :
    (h.define scope name value).around? i = h.around? i := by
  simp only [around?, definedFrame]
  split
  · simp [Function.comp_def, ScopeFrame.set]
  · rfl

theorem assignedAround (h : ScopeHeap) (scope : Nat) (name : String) (value : Value) (i : Nat) :
    (h.assign scope name value).around? i = h.around? i :=
  definedAround h _ name value i

theorem addedAround (h : ScopeHeap) (enclosing : Option Nat) (i : Nat) :
    (h.add enclosing).2.around? i = if i = h.frames.size then some enclosing else h.around? i := by
  simp only [around?, add, Array.getElem?_push]
  split <;> simp_all

theorem Ordered.same (ordered : h.Ordered) (same : ∀ i, k.around? i = h.around? i) : k.Ordered :=
  fun i next enclosed => ordered i next (same i ▸ enclosed)

theorem Ordered.add (ordered : h.Ordered) {enclosing : Option Nat}
    (inside : ∀ outer ∈ enclosing, outer < h.frames.size) : (h.add enclosing).2.Ordered := by
  intro i next enclosed
  rw [addedAround] at enclosed
  split at enclosed
  · simp_all
  · exact ordered i next enclosed

theorem Made.ordered (made : h.Made) : h.Ordered := by
  induction made with
  | empty => simp [Ordered, around?]
  | global _ ih => exact ih.add (by simp)
  | child _ inside ih => exact ih.add (by simpa using inside)
  | define _ _ name value ih => exact ih.same (definedAround _ _ name value)
  | assign _ _ name value ih => exact ih.same (assignedAround _ _ name value)

/-! ### The way out of a scope -/

theorem Way.same (leads : h.Way scope way) (same : ∀ i, k.around? i = h.around? i) :
    k.Way scope way := by
  induction leads with
  | outermost last => exact .outermost ((same _).trans last)
  | inner enclosed _ ih => exact .inner ((same _).trans enclosed) ih

theorem Way.first (leads : h.Way scope way) : ∃ outer, way = scope :: outer := by
  cases leads <;> exact ⟨_, rfl⟩

theorem Way.bounded (leads : h.Way scope way) (ordered : h.Ordered) : ∀ i ∈ way, i ≤ scope := by
  induction leads with
  | outermost => simp
  | inner enclosed _ ih =>
    have older := ordered _ _ enclosed
    intro i held
    rcases List.mem_cons.mp held with rfl | held
    · exact Nat.le_refl _
    · exact Nat.le_trans (ih i held) (Nat.le_of_lt older)

theorem Way.nodup (leads : h.Way scope way) (ordered : h.Ordered) : way.Nodup := by
  induction leads with
  | outermost => simp
  | inner enclosed rest ih =>
    have older := ordered _ _ enclosed
    refine List.nodup_cons.mpr ⟨fun again => ?_, ih⟩
    exact Nat.not_le_of_lt older (rest.bounded ordered _ again)

theorem Ordered.leads (ordered : h.Ordered) (inside : scope < h.frames.size) :
    ∃ way, h.Way scope way := by
  induction scope using Nat.strongRecOn with
  | ind scope ih =>
    have found : h.around? scope = some h.frames[scope].enclosing := by simp [around?, inside]
    cases enclosed : h.frames[scope].enclosing with
    | none => exact ⟨[scope], .outermost (enclosed ▸ found)⟩
    | some next =>
      rw [enclosed] at found
      have older := ordered scope next found
      obtain ⟨way, rest⟩ := ih next older (Nat.lt_trans older inside)
      exact ⟨scope :: way, .inner found rest⟩

/-! ### What is found on the way -/

theorem declaresGet (f : ScopeFrame) (name : String) : f.declares name = (f.get? name).isSome := by
  rcases findDeclared f.vars name with ⟨v, here, declared⟩ | ⟨missing, never⟩
  · rw [ScopeFrame.get?, here]
    exact declared
  · rw [ScopeFrame.get?, missing]
    exact Bool.eq_false_iff.mpr never

theorem declaringWay (leads : h.Way scope way) (ordered : h.Ordered) (name : String) :
    h.declaring? name scope = way.find? fun i => (h.own? i name).isSome := by
  induction leads with
  | @outermost scope last =>
    obtain ⟨f, found, free⟩ := Option.map_eq_some_iff.mp last
    rw [declaring?]
    simp [found, free, own?, declaresGet, List.find?_cons]
    cases (f.get? name).isSome <;> rfl
  | @inner scope next way enclosed _ ih =>
    obtain ⟨f, found, outer⟩ := Option.map_eq_some_iff.mp enclosed
    have older := ordered _ _ enclosed
    rw [declaring?]
    simp [found, outer, older, own?, declaresGet, List.find?_cons, ih]
    cases (f.get? name).isSome <;> rfl

theorem getFirst (h : ScopeHeap) (scope : Nat) (name : String) :
    h.get? scope name = (h.declaring? name scope).bind (h.own? · name) := rfl

theorem foundFirst {α β : Type} (f : α → Option β) (xs : List α) :
    (xs.find? fun x => (f x).isSome).bind f = xs.findSome? f := by
  induction xs with
  | nil => rfl
  | cons x rest ih =>
    rw [List.find?_cons, List.findSome?_cons]
    cases found : f x <;> simp [found, ih]

theorem getWay (leads : h.Way scope way) (ordered : h.Ordered) (name : String) :
    h.get? scope name = way.findSome? (h.own? · name) := by
  rw [getFirst, declaringWay leads ordered, foundFirst]

theorem getOutside (outside : ¬ scope < h.frames.size) (name : String) : h.get? scope name = none := by
  have missing : h.frames[scope]? = none := by simpa using outside
  rw [getFirst, declaring?]
  simp [missing]

/-! ### What an assignment changes -/

theorem setGet (f : ScopeFrame) (name other : String) (value : Value) :
    (f.set name value).get? other = if other = name then some value else f.get? other := by
  simp only [ScopeFrame.get?, ScopeFrame.set, setInFound]
  by_cases same : other = name
  · simp [same]
  · simp [same, Ne.symm same]

theorem definedOwn (inside : place < h.frames.size) (name : String) (value : Value) (i : Nat)
    (other : String) : (h.define place name value).own? i other =
      if i = place ∧ other = name then some value else h.own? i other := by
  simp only [own?, definedFrame]
  by_cases here : place = i
  · subst here
    simp [inside, setGet]
  · simp [here, Ne.symm here]

theorem foundApart {α β : Type} {f g : α → Option β} (place : α) {xs : List α}
    (same : ∀ x ≠ place, f x = g x)
    (hidden : ∀ inner outer, xs = inner ++ place :: outer → ∃ x ∈ inner, f x ≠ none) :
    xs.findSome? f = xs.findSome? g := by
  -- Where only the variable of one place differs, so does only what is found there first.
  induction xs with
  | nil => rfl
  | cons x rest ih =>
    by_cases here : x = place
    · subst here
      obtain ⟨_, held, _⟩ := hidden [] rest rfl
      cases held
    · rw [List.findSome?_cons, List.findSome?_cons, ← same x here]
      cases found : f x with
      | some _ => rfl
      | none =>
        refine ih fun inner outer split => ?_
        obtain ⟨y, held, other⟩ := hidden (x :: inner) outer (by rw [split]; rfl)
        rcases List.mem_cons.mp held with rfl | held
        · exact (other found).elim
        · exact ⟨y, held, other⟩

theorem Ordered.read (ordered : h.Ordered) (scope : Nat) :
    ∃ way, (∀ k : ScopeHeap, (∀ i, k.around? i = h.around? i) → ∀ name,
      k.get? scope name = way.findSome? (k.own? · name)) ∧ (way ≠ [] → h.Way scope way) := by
  by_cases inside : scope < h.frames.size
  · obtain ⟨way, leads⟩ := ordered.leads inside
    exact ⟨way, fun k same name => getWay (leads.same same) (ordered.same same) name, fun _ => leads⟩
  · have missing : h.around? scope = none := by simpa [around?] using inside
    have nothing (k : ScopeHeap) (same : ∀ i, k.around? i = h.around? i) (name : String) :
        k.get? scope name = none :=
      getOutside (by simpa [around?] using (same scope).trans missing) name
    exact ⟨[], nothing, fun some => (some rfl).elim⟩

theorem Way.nearest (leads : h.Way scope way) (ordered : h.Ordered)
    (found : h.declaring? name scope = some place) : h.Nearest name scope place := by
  rw [declaringWay leads ordered, List.find?_eq_some_iff_append] at found
  obtain ⟨declared, inner, outer, split, before⟩ := found
  exact ⟨inner, outer, split ▸ leads, declared, fun i held => by simpa using before i held⟩

theorem Way.nowhere (leads : h.Way scope way) (ordered : h.Ordered)
    (missing : h.declaring? name scope = none) : h.Nowhere name scope := by
  rw [declaringWay leads ordered, List.find?_eq_none] at missing
  exact ⟨way, leads, fun i held => by simpa using missing i held⟩

theorem targetBefore (target : h.Nearest name scope place ∨ h.Nowhere name scope ∧ place = scope) :
    ∃ inner outer, h.Way scope (inner ++ place :: outer) ∧ ∀ i ∈ inner, h.own? i name = none := by
  rcases target with ⟨inner, outer, leads, _, before⟩ | ⟨⟨way, leads, _⟩, rfl⟩
  · exact ⟨inner, outer, leads, before⟩
  · obtain ⟨outer, rfl⟩ := leads.first
    exact ⟨[], outer, leads, by simp⟩

theorem Way.inside (leads : h.Way scope way) : ∀ i ∈ way, i < h.frames.size := by
  have here (i : Nat) (next : Option Nat) (found : h.around? i = some next) : i < h.frames.size := by
    obtain ⟨f, held, _⟩ := Option.map_eq_some_iff.mp found
    exact (Array.getElem?_eq_some_iff.mp held).1
  induction leads with
  | outermost last => simpa using here _ _ last
  | inner enclosed _ ih => simpa using ⟨here _ _ enclosed, ih⟩

theorem Way.reads {inner outer : List Nat} (leads : h.Way scope (inner ++ place :: outer))
    (ordered : h.Ordered) (before : ∀ i ∈ inner, h.own? i name = none) :
    (h.define place name value).get? scope name = some value := by
  have scopes := definedAround h place name value
  have own := definedOwn (leads.inside place (by simp)) name value
  have apart : place ∉ inner := by
    have distinct := leads.nodup ordered
    simp only [List.nodup_append, List.nodup_cons] at distinct
    exact fun held => distinct.2.2 place held place (by simp) rfl
  have skipped : inner.findSome? ((h.define place name value).own? · name) = none := by
    simp only [List.findSome?_eq_none_iff, own]
    intro i held
    have elsewhere : i ≠ place := fun same => apart (same ▸ held)
    simp [elsewhere, before i held]
  rw [getWay (leads.same scopes) (ordered.same scopes), List.findSome?_append, skipped]
  simp [own]

theorem Ordered.otherNames (ordered : h.Ordered) (inside : place < h.frames.size) (from' : Nat)
    {other : String} (different : other ≠ name) :
    (h.define place name value).get? from' other = h.get? from' other := by
  obtain ⟨way, read, _⟩ := ordered.read from'
  have before := read h (fun _ => rfl) other
  have after := read _ (definedAround h place name value) other
  simpa [definedOwn inside, different, before] using after

theorem Ordered.otherPlaces (ordered : h.Ordered) (inside : place < h.frames.size) (from' : Nat)
    (hidden : ¬ (h.define place name value).Nearest name from' place) :
    (h.define place name value).get? from' name = h.get? from' name := by
  have scopes := definedAround h place name value
  have own := definedOwn inside name value
  obtain ⟨way, read, leads⟩ := ordered.read from'
  have same : way.findSome? ((h.define place name value).own? · name) =
      way.findSome? (h.own? · name) := by
    apply foundApart place
    · intro i elsewhere
      simp [own, elsewhere]
    · intro inner outer split
      apply Classical.byContradiction
      intro nearer
      have leads := leads (by simp [split])
      exact hidden ⟨inner, outer, split ▸ leads.same scopes, by simp [own], by simpa using nearer⟩
  calc (h.define place name value).get? from' name
      = way.findSome? ((h.define place name value).own? · name) := read _ scopes name
    _ = way.findSome? (h.own? · name) := same
    _ = h.get? from' name := (read h (fun _ => rfl) name).symm

theorem Ordered.assigns (ordered : h.Ordered) (inside : scope < h.frames.size) (name : String)
    (value : Value) : ∃ place, h.Assigns scope name value (h.assign scope name value) place := by
  obtain ⟨way, leads⟩ := ordered.leads inside
  have target : ∃ place, (h.Nearest name scope place ∨ h.Nowhere name scope ∧ place = scope) ∧
      h.assign scope name value = h.define place name value := by
    cases found : h.declaring? name scope with
    | some place => exact ⟨place, .inl (leads.nearest ordered found), by simp [assign, found]⟩
    | none => exact ⟨scope, .inr ⟨leads.nowhere ordered found, rfl⟩, by simp [assign, found]⟩
  obtain ⟨place, target, assigned⟩ := target
  obtain ⟨inner, outer, leads, before⟩ := targetBefore target
  have present : place < h.frames.size := leads.inside place (by simp)
  rw [assigned]
  exact ⟨place, {
    target
    values := definedOwn present name value
    scopes := definedAround h place name value
    reads := leads.reads ordered before
    otherNames := fun from' _ => ordered.otherNames present from'
    otherPlaces := fun from' => ordered.otherPlaces present from' }⟩

/-- In every heap there is, each scope has an end outwards, passing no scope twice, and an
assignment changes the one variable it should. -/
theorem madeAssigns (made : h.Made) :
    (∀ scope < h.frames.size, ∃ way, h.Way scope way ∧ way.Nodup) ∧
      ∀ scope < h.frames.size, ∀ name value, ∃ place,
        h.Assigns scope name value (h.assign scope name value) place := by
  have ordered := made.ordered
  constructor
  · intro scope inside
    obtain ⟨way, leads⟩ := ordered.leads inside
    exact ⟨way, leads, leads.nodup ordered⟩
  · exact fun scope inside => ordered.assigns inside

end

theorem outerVariableAssigned :
    let h := (((ScopeHeap.mk #[]).add none).2.define global "n" (.int 1)).child global |>.2
    h.Made ∧ 1 < h.frames.size ∧
      ∃ place, h.Assigns 1 "n" (.int 2) (h.assign 1 "n" (.int 2)) place := by
  intro h
  have made : h.Made := .child (.define (.global .empty) (by decide) "n" (.int 1)) (by decide)
  exact ⟨made, by decide, (madeAssigns made).2 1 (by decide) "n" (.int 2)⟩

end ScopeHeap
end Quill
