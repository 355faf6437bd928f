import Quill.Session

/-! Scope chains: the variables of the scopes that are open at a place in a program, without the
numbers that the heap of a run knows them by. -/
namespace Quill

theorem setInFound (n : String) (v : Value) (vars : List (String × Value)) (m : String) :
    (ScopeFrame.setIn n v vars).find? (·.1 = m) =
      if n = m then some (n, v) else vars.find? (·.1 = m) := by
  induction vars with
  | nil =>
    rw [ScopeFrame.setIn, List.find?_cons, List.find?_nil]
    by_cases same : n = m <;> simp [same]
  | cons x rest ih =>
    rw [ScopeFrame.setIn]
    by_cases here : x.1 = n
    · rw [if_pos here, List.find?_cons, List.find?_cons]
      by_cases same : n = m <;> simp [same, here]
    · rw [if_neg here, List.find?_cons, List.find?_cons, ih]
      by_cases same : n = m
      · subst same
        simp [here]
      · simp [same]

abbrev Chain := List (List (String × Value))

namespace Chain

def get? : Chain → String → Option Value
  | [], _ => none
  | vars :: outer, name =>
    match vars.find? (·.1 = name) with
    | some v => some v.2
    | none => get? outer name

def define : Chain → String → Value → Chain
  | [], _, _ => []
  | vars :: outer, name, value => ScopeFrame.setIn name value vars :: outer

def update? : Chain → String → Value → Option Chain
  | [], _, _ => none
  | vars :: outer, name, value =>
    if vars.any (·.1 = name) then some (ScopeFrame.setIn name value vars :: outer)
    else (update? outer name value).map (vars :: ·)

def assign (chain : Chain) (name : String) (value : Value) : Chain :=
  (chain.update? name value).getD (chain.define name value)

theorem defineLength (chain : Chain) (name : String) (value : Value) :
    (chain.define name value).length = chain.length := by
  cases chain <;> rfl

theorem assignLength (chain : Chain) (name : String) (value : Value) :
    (chain.assign name value).length = chain.length := by
  have updated (chain' : Chain) (found : chain.update? name value = some chain') :
      chain'.length = chain.length := by
    induction chain generalizing chain' with
    | nil => cases found
    | cons vars outer ih =>
      rw [update?] at found
      split at found
      · cases found
        rfl
      · obtain ⟨rest, below, rfl⟩ := Option.map_eq_some_iff.mp found
        exact congrArg (· + 1) (ih rest below)
  unfold assign
  cases found : chain.update? name value with
  | none => exact defineLength chain name value
  | some chain' => exact updated chain' found

def globals (chain : Chain) : Option (List (String × Value)) := chain.getLast?

end Chain

namespace ScopeHeap

def globals (h : ScopeHeap) : Option (List (String × Value)) :=
  h.frames[global]?.map ScopeFrame.vars

inductive Holds (h : ScopeHeap) : (scope : Nat) → Chain → Prop where
  | outermost {vars : List (String × Value)} (found : h.frames[global]? = some ⟨vars, none⟩) :
      Holds h global [vars]
  | inner {scope next : Nat} {vars : List (String × Value)} {outer : Chain}
      (found : h.frames[scope]? = some ⟨vars, some next⟩) (older : next < scope)
      (rest : Holds h next outer) : Holds h scope (vars :: outer)

variable {h k : ScopeHeap} {scope : Nat} {chain : Chain} {name : String} {value : Value}

theorem Holds.globals (holds : h.Holds scope chain) : h.globals = chain.globals := by
  induction holds with
  | outermost found => rw [ScopeHeap.globals, found]; rfl
  | @inner _ _ vars outer _ _ rest ih =>
    rw [ih]
    cases rest with
    | outermost _ => rfl
    | inner _ _ _ => rw [Chain.globals, Chain.globals, List.getLast?_cons_cons]

theorem Holds.nonempty (holds : h.Holds scope chain) : 0 < chain.length := by
  cases holds <;> exact Nat.succ_pos _

theorem Holds.older (holds : h.Holds scope chain)
    (same : ∀ i ≤ scope, k.frames[i]? = h.frames[i]?) : k.Holds scope chain := by
  induction holds with
  | outermost found => exact .outermost ((same _ (Nat.le_refl _)).trans found)
  | inner found older _ ih =>
    exact .inner ((same _ (Nat.le_refl _)).trans found) older
      (ih fun i inside => same i (Nat.le_trans inside (Nat.le_of_lt older)))

theorem declaringHere {f : ScopeFrame} (found : h.frames[scope]? = some f)
    (declared : f.declares name) : h.declaring? name scope = some scope := by
  rw [declaring?]
  simp only [found, if_pos declared]

theorem declaringOuter {vars : List (String × Value)} {next : Nat}
    (found : h.frames[scope]? = some ⟨vars, some next⟩) (older : next < scope)
    (never : ¬ vars.any (·.1 = name)) : h.declaring? name scope = h.declaring? name next := by
  rw [declaring?]
  simp only [found, ScopeFrame.declares, if_neg never, if_pos older]

theorem declaringNowhere {vars : List (String × Value)}
    (found : h.frames[scope]? = some ⟨vars, none⟩) (never : ¬ vars.any (·.1 = name)) :
    h.declaring? name scope = none := by
  rw [declaring?]
  simp only [found, ScopeFrame.declares]
  exact if_neg never

theorem findDeclared (vars : List (String × Value)) (name : String) :
    (∃ v, vars.find? (·.1 = name) = some v ∧ vars.any (·.1 = name)) ∨
      vars.find? (·.1 = name) = none ∧ ¬ vars.any (·.1 = name) := by
  cases found : vars.find? (·.1 = name) with
  | some v =>
    have inside := List.mem_of_find?_eq_some found
    have same := List.find?_some found
    exact .inl ⟨v, rfl, List.any_eq_true.mpr ⟨v, inside, same⟩⟩
  | none =>
    refine .inr ⟨rfl, fun declared => ?_⟩
    obtain ⟨v, inside, same⟩ := List.any_eq_true.mp declared
    exact List.find?_eq_none.mp found v inside same

theorem Holds.get (holds : h.Holds scope chain) : h.get? scope name = chain.get? name := by
  induction holds with
  | @outermost vars found =>
    rw [Chain.get?]
    rcases findDeclared vars name with ⟨v, here, declared⟩ | ⟨missing, never⟩
    · simp only [get?, declaringHere found declared, Option.bind_eq_bind, Option.bind_some, found,
        ScopeFrame.get?, here, Option.map_some]
    · simp only [get?, declaringNowhere found never, missing, Option.bind_eq_bind,
        Option.bind_none, Chain.get?]
  | @inner scope next vars outer found older _ ih =>
    rw [Chain.get?]
    rcases findDeclared vars name with ⟨v, here, declared⟩ | ⟨missing, never⟩
    · simp only [get?, declaringHere found declared, Option.bind_eq_bind, Option.bind_some, found,
        ScopeFrame.get?, here, Option.map_some]
    · simp only [missing, ← ih, get?, declaringOuter found older never]

theorem definedFrame (h : ScopeHeap) (scope : Nat) (name : String) (value : Value) (i : Nat) :
    (h.define scope name value).frames[i]? =
      if scope = i then h.frames[i]?.map (·.set name value) else h.frames[i]? := by
  unfold define
  rw [Array.getElem?_modify]

theorem definedHere {f : ScopeFrame} (found : h.frames[scope]? = some f) :
    (h.define scope name value).frames[scope]? = some (f.set name value) := by
  rw [definedFrame, if_pos rfl, found, Option.map_some]

theorem definedOlder {i : Nat} (older : i < scope) :
    (h.define scope name value).frames[i]? = h.frames[i]? := by
  rw [definedFrame, if_neg (Nat.ne_of_gt older)]

theorem definedNewer {i : Nat} (newer : scope < i) :
    (h.define scope name value).frames[i]? = h.frames[i]? := by
  rw [definedFrame, if_neg (Nat.ne_of_lt newer)]

theorem Holds.define (holds : h.Holds scope chain) :
    (h.define scope name value).Holds scope (chain.define name value) := by
  cases holds with
  | outermost found => exact .outermost (definedHere found)
  | inner found older rest =>
    refine .inner (definedHere found) older (rest.older fun i inside => ?_)
    exact definedOlder (Nat.lt_of_le_of_lt inside older)

theorem Holds.update (holds : h.Holds scope chain) (name : String) (value : Value) : Option.Rel
    (fun i chain' => i ≤ scope ∧ (h.define i name value).Holds scope chain')
    (h.declaring? name scope) (chain.update? name value) := by
  induction holds with
  | @outermost vars found =>
    rw [Chain.update?]
    by_cases declared : vars.any (·.1 = name)
    · rw [if_pos declared, declaringHere found declared]
      exact .some ⟨Nat.le_refl _, .outermost (definedHere found)⟩
    · rw [if_neg declared, declaringNowhere found declared]
      exact .none
  | @inner scope next vars outer found older rest ih =>
    rw [Chain.update?]
    by_cases declared : vars.any (·.1 = name)
    · rw [if_pos declared, declaringHere found declared]
      refine .some ⟨Nat.le_refl _, .inner (definedHere found) older (rest.older fun i inside => ?_)⟩
      exact definedOlder (Nat.lt_of_le_of_lt inside older)
    · rw [if_neg declared, declaringOuter found older declared]
      generalize h.declaring? name next = place at ih ⊢
      generalize Chain.update? outer name value = updated at ih ⊢
      cases ih with
      | none => exact .none
      | some related =>
        obtain ⟨inside, holds⟩ := related
        have newer := Nat.lt_of_le_of_lt inside older
        exact .some ⟨Nat.le_of_lt newer, .inner ((definedNewer newer).trans found) older holds⟩

theorem Holds.assign (holds : h.Holds scope chain) :
    (h.assign scope name value).Holds scope (chain.assign name value) := by
  have updated := holds.update name value
  unfold ScopeHeap.assign Chain.assign
  generalize h.declaring? name scope = place at updated ⊢
  generalize chain.update? name value = found at updated ⊢
  cases updated with
  | none => exact holds.define
  | some related => exact related.2

theorem Holds.inside (holds : h.Holds scope chain) : scope < h.frames.size := by
  cases holds with
  | outermost found => exact (Array.getElem?_eq_some_iff.mp found).1
  | inner found _ _ => exact (Array.getElem?_eq_some_iff.mp found).1

theorem Holds.child (holds : h.Holds scope chain) :
    (h.child scope).2.Holds (h.child scope).1 ([] :: chain) := by
  have size := holds.inside
  refine .inner Array.getElem?_push_size size (holds.older fun i inside => ?_)
  exact Array.getElem?_push_lt (Nat.lt_of_le_of_lt inside size) |>.trans
    (Array.getElem?_eq_getElem _).symm

theorem Holds.enclosing {vars : List (String × Value)} (holds : h.Holds scope (vars :: chain))
    (inner : chain ≠ []) : ∃ next, h.enclosing? scope = some next ∧ h.Holds next chain := by
  cases holds with
  | outermost _ => exact (inner rfl).elim
  | inner found _ rest => exact ⟨_, by rw [enclosing?, found]; rfl, rest⟩

end ScopeHeap

end Quill
