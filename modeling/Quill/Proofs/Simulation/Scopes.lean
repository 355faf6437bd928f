import Quill.Proofs.Simulation.Values
import Quill.Session

/-! Scopes of two runs that correspond: the same scopes with the same names, whose values do. -/
namespace Quill

def Variable.Alike (R : Routine → Routine → Prop) (v w : String × Value) : Prop :=
  v.1 = w.1 ∧ v.2.Alike R w.2

structure ScopeFrame.Alike (R : Routine → Routine → Prop) (f g : ScopeFrame) : Prop where
  vars : List.Forall₂ (Variable.Alike R) f.vars g.vars
  enclosing : f.enclosing = g.enclosing

structure ScopeHeap.Alike (R : Routine → Routine → Prop) (h k : ScopeHeap) : Prop where
  size : h.frames.size = k.frames.size
  frame (i : Nat) : Option.Rel (ScopeFrame.Alike R) h.frames[i]? k.frames[i]?

variable {R : Routine → Routine → Prop}

namespace ScopeFrame

theorem foundAlike {vs ws : List (String × Value)} (name : String)
    (alike : List.Forall₂ (Variable.Alike R) vs ws) :
    Option.Rel (Variable.Alike R) (vs.find? (·.1 = name)) (ws.find? (·.1 = name)) := by
  induction alike with
  | nil => exact .none
  | @cons v w vs ws head _ ih =>
    rw [List.find?_cons, List.find?_cons, ← head.1]
    by_cases found : v.1 = name
    · rw [decide_eq_true found]
      exact .some head
    · rw [decide_eq_false found]
      exact ih

theorem getAlike {f g : ScopeFrame} (name : String) (alike : f.Alike R g) :
    Option.Rel (Value.Alike R) (f.get? name) (g.get? name) := by
  unfold get?
  rcases relatedCases (foundAlike name alike.vars) with ⟨missing, missing'⟩ | ⟨v, w, found, found', same⟩
  · rw [missing, missing']
    exact .none
  · rw [found, found']
    exact .some same.2

theorem declaresAlike {f g : ScopeFrame} (name : String) (alike : f.Alike R g) :
    f.declares name = g.declares name := by
  obtain ⟨vars, -⟩ := alike
  unfold declares
  generalize f.vars = vs at vars ⊢
  generalize g.vars = ws at vars ⊢
  induction vars with
  | nil => rfl
  | cons head _ ih => rw [List.any_cons, List.any_cons, head.1, ih]

theorem setInAlike (name : String) {v w : Value} (value : v.Alike R w)
    {vs ws : List (String × Value)} (alike : List.Forall₂ (Variable.Alike R) vs ws) :
    List.Forall₂ (Variable.Alike R) (setIn name v vs) (setIn name w ws) := by
  induction alike with
  | nil => exact .cons ⟨rfl, value⟩ .nil
  | @cons u x _ _ head tail ih =>
    rw [setIn, setIn, ← head.1]
    by_cases found : u.1 = name
    · rw [if_pos found, if_pos found]
      exact .cons ⟨rfl, value⟩ tail
    · rw [if_neg found, if_neg found]
      exact .cons head ih

theorem setAlike (name : String) {v w : Value} {f g : ScopeFrame} (value : v.Alike R w)
    (alike : f.Alike R g) : (f.set name v).Alike R (g.set name w) :=
  ⟨setInAlike name value alike.vars, alike.enclosing⟩

end ScopeFrame

namespace ScopeHeap

theorem enclosingAlike {h k : ScopeHeap} (scope : Nat) (alike : h.Alike R k) :
    h.enclosing? scope = k.enclosing? scope := by
  unfold enclosing?
  rcases relatedCases (alike.frame scope) with ⟨missing, missing'⟩ | ⟨f, g, found, found', frame⟩
  · rw [missing, missing']
  · rw [found, found']
    exact frame.enclosing

theorem declaringAlike {h k : ScopeHeap} (name : String) (scope : Nat) (alike : h.Alike R k) :
    h.declaring? name scope = k.declaring? name scope := by
  induction scope using Nat.strongRecOn with
  | ind scope ih =>
    rw [declaring?, declaring?]
    rcases relatedCases (alike.frame scope) with ⟨missing, missing'⟩ | ⟨f, g, found, found', frame⟩
    · rw [missing, missing']
    · rw [found, found']
      simp only
      rw [ScopeFrame.declaresAlike name frame, frame.enclosing]
      by_cases declared : g.declares name
      · rw [if_pos declared, if_pos declared]
      · rw [if_neg declared, if_neg declared]
        cases enclosing : g.enclosing with
        | none => rfl
        | some outer =>
          by_cases older : outer < scope
          · simp only [if_pos older, ih outer older]
          · simp only [if_neg older]

theorem getAlike {h k : ScopeHeap} (scope : Nat) (name : String) (alike : h.Alike R k) :
    Option.Rel (Value.Alike R) (h.get? scope name) (k.get? scope name) := by
  unfold get?
  rw [declaringAlike name scope alike]
  cases k.declaring? name scope with
  | none => exact .none
  | some found =>
    simp only [Option.bind_eq_bind, Option.bind_some]
    rcases relatedCases (alike.frame found) with ⟨missing, missing'⟩ | ⟨f, g, at_, at', frame⟩
    · rw [missing, missing']
      exact .none
    · rw [at_, at']
      exact ScopeFrame.getAlike name frame

theorem defineAlike {h k : ScopeHeap} (scope : Nat) (name : String) {v w : Value}
    (value : v.Alike R w) (alike : h.Alike R k) :
    (h.define scope name v).Alike R (k.define scope name w) := by
  refine ⟨?_, fun i => ?_⟩
  · simp only [define, Array.size_modify]
    exact alike.size
  · simp only [define, Array.getElem?_modify]
    by_cases hit : scope = i
    · rw [if_pos hit, if_pos hit]
      rcases relatedCases (alike.frame i) with ⟨missing, missing'⟩ | ⟨f, g, found, found', frame⟩
      · rw [missing, missing']
        exact .none
      · rw [found, found']
        exact .some (ScopeFrame.setAlike name value frame)
    · rw [if_neg hit, if_neg hit]
      exact alike.frame i

theorem assignAlike {h k : ScopeHeap} (scope : Nat) (name : String) {v w : Value}
    (value : v.Alike R w) (alike : h.Alike R k) :
    (h.assign scope name v).Alike R (k.assign scope name w) := by
  unfold assign
  rw [declaringAlike name scope alike]
  exact defineAlike _ name value alike

theorem childAlike {h k : ScopeHeap} (scope : Nat) (alike : h.Alike R k) :
    (h.child scope).1 = (k.child scope).1 ∧ (h.child scope).2.Alike R (k.child scope).2 := by
  refine ⟨alike.size, ?_, fun i => ?_⟩
  · simp only [child, add, Array.size_push, alike.size]
  · simp only [child, add, Array.getElem?_push, alike.size]
    by_cases last : i = k.frames.size
    · rw [if_pos last, if_pos last]
      exact .some ⟨.nil, rfl⟩
    · rw [if_neg last, if_neg last]
      exact alike.frame i

theorem weakenAlike {S : Routine → Routine → Prop} (weaker : ∀ r s, R r s → S r s)
    {h k : ScopeHeap} (alike : h.Alike R k) : h.Alike S k := by
  refine ⟨alike.size, fun i => ?_⟩
  rcases relatedCases (alike.frame i) with ⟨missing, missing'⟩ | ⟨f, g, found, found', frame⟩
  · rw [missing, missing']
    exact .none
  · rw [found, found']
    exact .some ⟨frame.vars.imp fun _ _ alike => ⟨alike.1, alike.2.weaken weaker⟩, frame.enclosing⟩

end ScopeHeap

/-- No function in the scopes has code of one of the units. -/
def ScopeHeap.FreeOf (h : ScopeHeap) (units : List Nat) : Prop :=
  h.Alike (fun r s => r = s ∧ r.place.unit ∉ units) h

theorem newAlike (R : Routine → Routine → Prop) : Machine.new.scopes.Alike R Machine.new.scopes := by
  -- Built-in functions have no code.
  have empty : ScopeHeap.new.Alike R ScopeHeap.new := by
    refine ⟨rfl, fun i => ?_⟩
    cases i with
    | zero => exact .some ⟨.nil, rfl⟩
    | succ i => exact .none
  have defined (all : List Intrinsic) (h : ScopeHeap) (alike : h.Alike R h) :
      (all.foldl (fun h i => h.define ScopeHeap.global i.name (.intrinsic i)) h).Alike R
        (all.foldl (fun h i => h.define ScopeHeap.global i.name (.intrinsic i)) h) := by
    induction all generalizing h with
    | nil => exact alike
    | cons i all ih => exact ih _ (ScopeHeap.defineAlike _ _ (.plain _ trivial) alike)
  exact defined Intrinsic.all ScopeHeap.new empty

end Quill
