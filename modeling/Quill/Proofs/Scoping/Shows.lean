import Quill.Proofs.Evaluation.Chains
import Quill.Proofs.Simulation.Values

/-! Scopes of a run that declare certain names, and functions that were made in such scopes. Scopes
are never closed to a name that they have declared. -/
namespace Quill

namespace ScopeHeap

def Keeps (h k : ScopeHeap) : Prop :=
  ∀ (i : Nat) (f : ScopeFrame), h.frames[i]? = some f →
    ∃ g : ScopeFrame, k.frames[i]? = some g ∧ g.enclosing = f.enclosing ∧ ∀ n, f.declares n → g.declares n

inductive Shows (h : ScopeHeap) : Nat → List (List String) → Prop where
  | outermost {scope : Nat} {f : ScopeFrame} {names : List String}
      (found : h.frames[scope]? = some f) (last : f.enclosing = none)
      (declared : ∀ n ∈ names, f.declares n) : Shows h scope [names]
  | inner {scope next : Nat} {f : ScopeFrame} {names : List String} {outer : List (List String)}
      (found : h.frames[scope]? = some f) (enclosed : f.enclosing = some next)
      (older : next < scope) (declared : ∀ n ∈ names, f.declares n) (rest : Shows h next outer) :
      Shows h scope (names :: outer)

variable {h k l : ScopeHeap} {scope : Nat} {names : List (List String)} {n : String} {v : Value}

theorem Keeps.refl (h : ScopeHeap) : h.Keeps h := fun _ f found => ⟨f, found, rfl, fun _ => id⟩

theorem Keeps.trans (first : h.Keeps k) (second : k.Keeps l) : h.Keeps l := by
  intro i f found
  obtain ⟨g, found', enclosing, declares⟩ := first i f found
  obtain ⟨g', found'', enclosing', declares'⟩ := second i g found'
  exact ⟨g', found'', enclosing'.trans enclosing, fun n declared => declares' n (declares n declared)⟩

theorem setDeclares {f : ScopeFrame} (n : String) (v : Value) (other : String) :
    (f.set n v).declares other ↔ f.declares other ∨ other = n := by
  obtain ⟨vars, enclosing⟩ := f
  change (ScopeFrame.setIn n v vars).any (·.1 = other) ↔ vars.any (·.1 = other) ∨ other = n
  induction vars with
  | nil => simp [ScopeFrame.setIn, eq_comm]
  | cons x rest ih =>
    rw [ScopeFrame.setIn]
    by_cases same : x.1 = n
    · rw [if_pos same]
      simp only [List.any_cons, same, Bool.or_eq_true, decide_eq_true_eq]
      grind
    · rw [if_neg same]
      simp only [List.any_cons, Bool.or_eq_true, decide_eq_true_eq] at ih ⊢
      rw [ih, or_assoc]

theorem keepsDefine (h : ScopeHeap) (scope : Nat) (n : String) (v : Value) :
    h.Keeps (h.define scope n v) := by
  intro i f found
  change ∃ g, (h.frames.modify scope _)[i]? = some g ∧ _
  rw [Array.getElem?_modify, found]
  by_cases same : scope = i
  · rw [if_pos same]
    exact ⟨_, rfl, rfl, fun m declared => (setDeclares n v m).mpr (.inl declared)⟩
  · rw [if_neg same]
    exact ⟨f, rfl, rfl, fun _ => id⟩

theorem keepsChild (h : ScopeHeap) (scope : Nat) : h.Keeps (h.child scope).2 := by
  intro i f found
  have inside := (Array.getElem?_eq_some_iff.mp found).1
  refine ⟨f, ?_, rfl, fun _ => id⟩
  rw [← found]
  exact (Array.getElem?_push_lt inside).trans (Array.getElem?_eq_getElem inside).symm

theorem Shows.keeps (visible : h.Shows scope names) (keeps : h.Keeps k) : k.Shows scope names := by
  induction visible with
  | outermost found last declared =>
    obtain ⟨g, found', enclosing, declares⟩ := keeps _ _ found
    exact .outermost found' (enclosing.trans last) fun n inside => declares n (declared n inside)
  | inner found enclosed older declared _ ih =>
    obtain ⟨g, found', enclosing, declares⟩ := keeps _ _ found
    exact .inner found' (enclosing.trans enclosed) older
      (fun n inside => declares n (declared n inside)) ih

theorem Shows.frame {inner : List String} {outer : List (List String)}
    (visible : h.Shows scope (inner :: outer)) :
    ∃ f, h.frames[scope]? = some f ∧ ∀ n ∈ inner, f.declares n := by
  cases visible with
  | outermost found _ declared => exact ⟨_, found, declared⟩
  | inner found _ _ declared _ => exact ⟨_, found, declared⟩

theorem Shows.add {inner inner' : List String} {outer : List (List String)} {f : ScopeFrame}
    (visible : h.Shows scope (inner :: outer)) (found : h.frames[scope]? = some f)
    (declared : ∀ n ∈ inner', f.declares n) : h.Shows scope (inner' :: outer) := by
  cases visible with
  | outermost found' last _ =>
    cases found.symm.trans found'
    exact .outermost found last declared
  | inner found' enclosed older _ rest =>
    cases found.symm.trans found'
    exact .inner found enclosed older declared rest

theorem Shows.define {inner inner' : List String} {outer : List (List String)}
    (visible : h.Shows scope (inner :: outer)) (known : inner' ⊆ n :: inner) :
    (h.define scope n v).Shows scope (inner' :: outer) := by
  obtain ⟨f, found, declared⟩ := visible.frame
  refine (visible.keeps (keepsDefine h scope n v)).add (f := f.set n v) ?_ fun m inside => ?_
  · change (h.frames.modify scope _)[scope]? = _
    rw [Array.getElem?_modify, if_pos rfl, found]
    rfl
  · rcases List.mem_cons.mp (known inside) with rfl | inside
    · exact (setDeclares _ _ _).mpr (.inr rfl)
    · exact (setDeclares _ _ _).mpr (.inl (declared m inside))

theorem Shows.child (visible : h.Shows scope names) :
    (h.child scope).2.Shows (h.child scope).1 ([] :: names) := by
  have size : scope < h.frames.size := by
    cases visible with
    | outermost found _ _ => exact (Array.getElem?_eq_some_iff.mp found).1
    | inner found _ _ _ _ => exact (Array.getElem?_eq_some_iff.mp found).1
  exact .inner Array.getElem?_push_size rfl size (fun _ inside => nomatch inside)
    (visible.keeps (keepsChild h scope))

theorem Shows.enclosing {inner : List String} {outer : List (List String)}
    (visible : h.Shows scope (inner :: outer)) (more : outer ≠ []) :
    ∃ next, h.enclosing? scope = some next ∧ h.Shows next outer := by
  cases visible with
  | outermost _ _ _ => exact (more rfl).elim
  | inner found enclosed _ _ rest => exact ⟨_, by rw [enclosing?, found]; exact enclosed, rest⟩

theorem Shows.declaring (visible : h.Shows scope names) (inside : n ∈ names.flatten) :
    ∃ i, h.declaring? n scope = some i := by
  induction visible with
  | outermost found _ declared =>
    rw [List.flatten_cons, List.flatten_nil, List.append_nil] at inside
    exact ⟨_, declaringHere found (declared n inside)⟩
  | @inner scope next f names outer found enclosed older declared _ ih =>
    by_cases here : f.declares n
    · exact ⟨_, declaringHere found here⟩
    · rw [List.flatten_cons] at inside
      rcases List.mem_append.mp inside with inside | inside
      · exact (here (declared n inside)).elim
      · obtain ⟨i, found'⟩ := ih inside
        obtain ⟨vars, enclosing⟩ := f
        cases enclosed
        exact ⟨i, (declaringOuter found older here).trans found'⟩

theorem declaringFrame {i : Nat} (found : h.declaring? n scope = some i) :
    ∃ f, h.frames[i]? = some f ∧ f.declares n := by
  induction scope using Nat.strongRecOn with
  | ind scope ih =>
    rw [declaring?] at found
    split at found
    · cases found
    · rename_i f here
      split at found
      · rename_i declared
        cases found
        exact ⟨f, here, declared⟩
      · split at found
        · cases found
        · split at found
          · rename_i older
            exact ih _ older found
          · cases found

theorem getDeclared {i : Nat} (found : h.declaring? n scope = some i) :
    ∃ v, h.get? scope n = some v := by
  obtain ⟨f, here, declared⟩ := declaringFrame found
  rcases findDeclared f.vars n with ⟨x, first, -⟩ | ⟨-, never⟩
  · exact ⟨x.2, by simp only [get?, found, Option.bind_eq_bind, Option.bind_some, here,
      ScopeFrame.get?, first, Option.map_some]⟩
  · exact (never declared).elim

end ScopeHeap

mutual

def Value.closures : Value → List Closure
  | .object _ entries => entriesClosures entries
  | .function c => [c]
  | .none | .bool _ | .int _ | .float _ | .str _ | .char _ | .intrinsic _ => []

def entriesClosures : List Entry → List Closure
  | [] => []
  | .mk _ value :: rest => value.closures ++ entriesClosures rest

end

theorem Value.Plain.closures {v : Value} (plain : v.Plain) : v.closures = [] := by
  cases v with
  | object _ _ => exact plain.elim
  | function _ => exact plain.elim
  | _ => rw [Value.closures]

theorem valueAtClosures {entries : List Entry} {key : PropertyName} {v : Value}
    (found : valueAt? entries key = some v) : v.closures ⊆ entriesClosures entries := by
  induction entries with
  | nil => cases found
  | cons e rest ih =>
    obtain ⟨k, w⟩ := e
    rw [entriesClosures]
    unfold valueAt? at found
    rw [List.find?_cons] at found
    by_cases same : k = key
    · rw [show decide ((Entry.mk k w).key = key) = true from decide_eq_true same] at found
      cases found
      exact List.subset_append_left _ _
    · rw [show decide ((Entry.mk k w).key = key) = false from decide_eq_false same] at found
      exact List.Subset.trans (ih found) (List.subset_append_right _ _)

theorem setEntryClosures (entries : List Entry) (key : PropertyName) (v : Value) :
    entriesClosures (setEntry entries key v) ⊆ entriesClosures entries ++ v.closures := by
  induction entries with
  | nil =>
    simp only [setEntry, entriesClosures, List.append_nil, List.nil_append, List.Subset.refl]
  | cons e rest ih =>
    obtain ⟨k, w⟩ := e
    rw [setEntry]
    split
    · rw [entriesClosures, entriesClosures]
      intro c inside
      rcases List.mem_append.mp inside with inside | inside
      · exact List.mem_append_right _ inside
      · exact List.mem_append_left _ (List.mem_append_right _ inside)
    · rw [entriesClosures, entriesClosures, List.append_assoc]
      exact List.append_subset.mpr ⟨List.subset_append_left _ _,
        List.Subset.trans ih (List.subset_append_right _ _)⟩

theorem memberClosures {object key v : Value} (given : memberOf object key = .ok v) :
    v.closures ⊆ object.closures := by
  by_cases plain : object.Plain
  · rw [(Value.memberPlain plain given).closures]
    exact List.nil_subset _
  cases object with
  | object id entries =>
    rw [Value.closures]
    unfold memberOf at given
    simp only at given
    split at given
    · rename_i k _
      cases given
      cases found : valueAt? entries k with
      | none => exact List.nil_subset _
      | some w => exact valueAtClosures found
    · cases given
  | function _ => cases given
  | _ => exact (plain trivial).elim

end Quill
