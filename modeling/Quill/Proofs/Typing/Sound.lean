import Quill.Machine.Step
import Quill.Proofs.Simulation.Arguments
import Quill.Proofs.Simulation.Faults
import Quill.Proofs.Typing.Points

/-! Values whose functions have code with a known stack, scopes that hold such values, and faults
that only code without a known stack runs into. -/
namespace Quill

/-- Code of a function or a default, with a known stack. Two runs of one program are compared, so
what is known of one is said of both. -/
def Nested (r s : Routine) : Prop := r = s ∧ Typed none r.code

abbrev Value.Sound (v : Value) : Prop := v.Alike Nested v

abbrev Closure.Sound (c : Closure) : Prop := c.Alike Nested c

abbrev ScopeHeap.Sound (h : ScopeHeap) : Prop := h.Alike Nested h

def CellsSound (stack : List Cell) : Prop := ∀ c ∈ stack, c.value.Sound

theorem soundAnswer {P : α → α → Prop} {x : Except ε α} {a : α} (alike : AnswersAlike P x x)
    (found : x = .ok a) : P a a := by
  rw [found] at alike
  cases alike with
  | ok holds => exact holds

theorem soundOption {P : α → α → Prop} {x : Option α} {a : α} (related : Option.Rel P x x)
    (found : x = some a) : P a a := by
  rw [found] at related
  cases related with
  | some holds => exact holds

namespace ScopeHeap

def Grows (h k : ScopeHeap) : Prop :=
  ∀ scope outer, h.enclosing? scope = some outer → k.enclosing? scope = some outer

def Within (h : ScopeHeap) : (scope blocks : Nat) → Prop
  | scope, 0 => scope = global
  | scope, blocks + 1 => ∃ outer, h.enclosing? scope = some outer ∧ h.Within outer blocks

theorem Within.grow {h k : ScopeHeap} (grows : h.Grows k) {scope blocks : Nat}
    (within : h.Within scope blocks) : k.Within scope blocks := by
  induction blocks generalizing scope with
  | zero => exact within
  | succ blocks ih =>
    obtain ⟨outer, found, within⟩ := within
    exact ⟨outer, grows scope outer found, ih within⟩

theorem growsDefine (h : ScopeHeap) (scope : Nat) (name : String) (value : Value) :
    h.Grows (h.define scope name value) := by
  intro other outer found
  unfold enclosing? define at *
  rw [Array.getElem?_modify]
  by_cases same : scope = other
  · subst same
    rw [if_pos rfl]
    cases here : h.frames[scope]? with
    | none => rw [here] at found; cases found
    | some f => rw [here] at found; exact found
  · rw [if_neg same]
    exact found

theorem growsAssign (h : ScopeHeap) (scope : Nat) (name : String) (value : Value) :
    h.Grows (h.assign scope name value) :=
  h.growsDefine _ name value

theorem enclosingBound {h : ScopeHeap} {scope outer : Nat} (found : h.enclosing? scope = some outer) :
    scope < h.frames.size := by
  unfold enclosing? at found
  obtain ⟨f, here, -⟩ := Option.bind_eq_some_iff.mp found
  exact (Array.getElem?_eq_some_iff.mp here).1

theorem growsChild (h : ScopeHeap) (scope : Nat) : h.Grows (h.child scope).2 := by
  intro other outer found
  have bound := enclosingBound found
  unfold enclosing? at found ⊢
  simp only [child, add]
  rw [Array.getElem?_push, if_neg (Nat.ne_of_lt bound)]
  exact found

theorem childEnclosed (h : ScopeHeap) (scope : Nat) :
    (h.child scope).2.enclosing? (h.child scope).1 = some scope := by
  unfold enclosing?
  simp only [child, add]
  rw [Array.getElem?_push, if_pos rfl]
  rfl

end ScopeHeap

def Fault.Malformed : Fault → Prop
  | .stackUnderflow .. | .malformedOperand .. => True
  | .typeMismatch text =>
    ∃ op kind, text = Opcode.name op ++ " expects a variable name, got " ++ kind
  | _ => False

theorem Opcode.nameCapital (op : Opcode) : ∃ c, op.name.toList.head? = some c ∧ c.isUpper := by
  cases op <;> exact ⟨_, rfl, rfl⟩

theorem otherMismatch {text : String} {c : Char} (first : text.toList.head? = some c)
    (small : c.isUpper = false) : ¬ (Fault.typeMismatch text).Malformed := by
  rintro ⟨op, kind, rfl⟩
  obtain ⟨d, capital, upper⟩ := op.nameCapital
  rw [String.toList_append, String.toList_append, List.append_assoc, List.head?_append, capital,
    Option.some_or] at first
  cases first
  rw [upper] at small
  cases small

theorem headAppend {text rest : String} {c : Char} (first : text.toList.head? = some c) :
    (text ++ rest).toList.head? = some c := by
  rw [String.toList_append, List.head?_append, first]
  rfl

theorem ApplyError.mismatch (e : ApplyError) : ¬ (Fault.typeMismatch e.message).Malformed := by
  cases e with
  | divisionByZero => exact otherMismatch rfl rfl
  | binaryMismatch _ _ _ =>
    exact otherMismatch (headAppend (headAppend (headAppend (headAppend (headAppend rfl))))) rfl
  | unaryMismatch _ _ => exact otherMismatch (headAppend (headAppend (headAppend rfl))) rfl

theorem Fault.OfValues.sound {fault : Fault} (fails : fault.OfValues) : ¬ fault.Malformed := by
  cases fails with
  | unexpected i what got =>
    cases i <;> exact otherMismatch (headAppend (headAppend (headAppend (headAppend rfl)))) rfl
  | key | memberless => exact otherMismatch (headAppend rfl) rfl
  | _ => exact id

end Quill
