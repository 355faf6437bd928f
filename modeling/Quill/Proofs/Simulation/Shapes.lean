import Quill.Proofs.Simulation.Frames

/-! Operands of one shape, in which code stands in the same slots. Instructions with such operands
correspond if the code in their slots does. -/
namespace Quill

mutual

inductive Operand.Shaped (T : Code → Code → Prop) : Operand → Operand → Prop where
  | flat {x : Operand} {v : Value} (constant : Value.ofOperand? x = some v) : Operand.Shaped T x x
  | code {c c' : Code} (codes : T c c') : Operand.Shaped T (.code c) (.code c')
  | list {items items' : List Operand} (shaped : OperandsShaped T items items') :
      Operand.Shaped T (.list items) (.list items')
  | tuple {a a' b b' : Operand} (first : Operand.Shaped T a a') (second : Operand.Shaped T b b') :
      Operand.Shaped T (.tuple a b) (.tuple a' b')

inductive OperandsShaped (T : Code → Code → Prop) : List Operand → List Operand → Prop where
  | nil : OperandsShaped T [] []
  | cons {x x' : Operand} {rest rest' : List Operand} (head : Operand.Shaped T x x')
      (tail : OperandsShaped T rest rest') : OperandsShaped T (x :: rest) (x' :: rest')

end

def argumentCode? (items : List Operand) (slot : Nat) : Option Code :=
  match items[slot]? with
  | some (.tuple _ (.code code)) => some code
  | _ => none

def propertyCode? (items : List Operand) (slot : Nat) : Option Code :=
  match items[slot / 2]? with
  | some (.tuple (.code key) (.code value)) => some (if slot % 2 = 0 then key else value)
  | _ => none

theorem propertyCons (x : Operand) (items : List Operand) (slot : Nat) :
    propertyCode? (x :: items) (slot + 2) = propertyCode? items slot := by
  unfold propertyCode?
  rw [show (slot + 2) / 2 = slot / 2 + 1 by omega, show (slot + 2) % 2 = slot % 2 by omega,
    List.getElem?_cons_succ]

def Instr.slot? (i : Instr) (slot : Nat) : Option Code :=
  match i.opcode, i.operand, slot with
  | .call, .list items, slot => argumentCode? items slot
  | .pushObject, .list items, slot => propertyCode? items slot
  | .proc, .tuple (.list _) (.code body), 0 => some body
  | .proc, .tuple (.list params) (.code _), slot + 1 => argumentCode? params slot
  | _, _, _ => none

theorem jumpHasNoSlot {i : Instr} (jump : i.opcode.isJump) {slot : Nat} {c : Code} :
    i.slot? slot ≠ some c := by
  obtain ⟨op, x, source⟩ := i
  change op.isJump at jump
  have empty : (Instr.mk op x source).slot? slot = none := by
    cases op <;> first | rfl | cases jump
  rw [empty]
  exact (Option.some_ne_none c).symm

theorem flatSlot {op : Opcode} {x : Operand} {source : Option Nat} {v : Value}
    (constant : Value.ofOperand? x = some v) (slot : Nat) :
    (Instr.mk op x source).slot? slot = none := by
  cases x with
  | code _ | list _ | tuple _ _ => cases constant
  | _ => simp only [Instr.slot?, Instr.opcode, Instr.operand]

variable {T : Code → Code → Prop}

namespace Operand.Shaped

theorem constant {x x' : Operand} (shaped : x.Shaped T x') :
    Value.ofOperand? x = Value.ofOperand? x' := by
  cases shaped <;> rfl

theorem text {x x' : Operand} (shaped : x.Shaped T x') : x.text? = x'.text? := by
  cases shaped <;> rfl

end Operand.Shaped

namespace Operand.Shaped

theorem argument {x x' : Operand} (shaped : x.Shaped T x') :
    (∃ a a' c c', x = .tuple a (.code c) ∧ x' = .tuple a' (.code c') ∧ a.text? = a'.text? ∧ T c c') ∨
    (∀ name code, x ≠ .tuple name (.code code)) ∧ ∀ name code, x' ≠ .tuple name (.code code) := by
  cases shaped with
  | flat constant =>
    exact .inr (by constructor <;> rintro _ _ rfl <;> cases constant)
  | code _ => exact .inr ⟨by simp, by simp⟩
  | list _ => exact .inr ⟨by simp, by simp⟩
  | tuple names second =>
    cases second with
    | code codes => exact .inl ⟨_, _, _, _, rfl, rfl, names.text, codes⟩
    | flat constant =>
      exact .inr (by constructor <;> rintro _ _ ⟨⟩ <;> cases constant)
    | list _ => exact .inr ⟨by simp, by simp⟩
    | tuple _ _ => exact .inr ⟨by simp, by simp⟩

theorem asCode {x x' : Operand} (shaped : x.Shaped T x') :
    (∃ c c', x = .code c ∧ x' = .code c' ∧ T c c') ∨
    (∀ code, x ≠ .code code) ∧ ∀ code, x' ≠ .code code := by
  cases shaped with
  | flat constant =>
    exact .inr (by constructor <;> rintro _ rfl <;> cases constant)
  | code codes => exact .inl ⟨_, _, rfl, rfl, codes⟩
  | list _ => exact .inr ⟨by simp, by simp⟩
  | tuple _ _ => exact .inr ⟨by simp, by simp⟩

theorem property {x x' : Operand} (shaped : x.Shaped T x') :
    (∃ a a' c c', x = .tuple (.code a) (.code c) ∧ x' = .tuple (.code a') (.code c') ∧
      T a a' ∧ T c c') ∨
    (∀ key value, x ≠ .tuple (.code key) (.code value)) ∧
      ∀ key value, x' ≠ .tuple (.code key) (.code value) := by
  cases shaped with
  | flat constant =>
    exact .inr (by constructor <;> rintro _ _ rfl <;> cases constant)
  | code _ => exact .inr ⟨by simp, by simp⟩
  | list _ => exact .inr ⟨by simp, by simp⟩
  | tuple keys values =>
    rcases keys.asCode with ⟨a, a', rfl, rfl, key⟩ | ⟨odd, odd'⟩
    · rcases values.asCode with ⟨c, c', rfl, rfl, value⟩ | ⟨odd, odd'⟩
      · exact .inl ⟨a, a', c, c', rfl, rfl, key, value⟩
      · exact .inr (by constructor <;> rintro _ _ ⟨⟩ <;> first | exact odd _ rfl | exact odd' _ rfl)
    · exact .inr (by constructor <;> rintro _ _ ⟨⟩ <;> first | exact odd _ rfl | exact odd' _ rfl)

end Operand.Shaped

namespace OperandsShaped

variable {L : Link} {inner inner' : Code → Nat → Routine}

theorem arguments {items items' : List Operand} (slot : Nat) (shaped : OperandsShaped T items items')
    (routines : ∀ k c c', argumentCode? items k = some c → argumentCode? items' k = some c' →
      T c c' → L.routine (inner c (slot + k)) (inner' c' (slot + k))) :
    ArgumentsAlike L inner inner' slot items items' := by
  match shaped with
  | .nil => exact .nil slot
  | .cons head tail =>
    rcases head.argument with ⟨a, a', c, c', rfl, rfl, names, codes⟩ | ⟨odd, odd'⟩
    · refine .cons names (routines 0 c c' rfl rfl codes) (tail.arguments (slot + 1) ?_)
      intro k c c' found found' related
      rw [Nat.add_right_comm, Nat.add_assoc]
      exact routines (k + 1) c c' found found' related
    · exact .malformed _ _ odd odd'

theorem properties {items items' : List Operand} (index : Nat) (shaped : OperandsShaped T items items')
    (routines : ∀ k c c', propertyCode? items k = some c → propertyCode? items' k = some c' →
      T c c' → L.routine (inner c (2 * index + k)) (inner' c' (2 * index + k))) :
    PropertiesAlike L inner inner' index items items' := by
  match shaped with
  | .nil => exact .nil index
  | .cons head tail =>
    rcases head.property with ⟨a, a', c, c', rfl, rfl, keys, values⟩ | ⟨odd, odd'⟩
    · refine .cons (routines 0 a a' rfl rfl keys) (routines 1 c c' rfl rfl values)
        (tail.properties (index + 1) ?_)
      intro k c c' found found' related
      rw [show 2 * (index + 1) + k = 2 * index + (k + 2) by omega]
      refine routines (k + 2) c c' ?_ ?_ related
      · rw [propertyCons, found]
      · rw [propertyCons, found']
    · exact .malformed _ _ odd odd'

theorem params {l l' : Level} {items items' : List Operand} (index : Nat)
    (shaped : OperandsShaped T items items')
    (routines : ∀ k c c', argumentCode? items k = some c → argumentCode? items' k = some c' →
      T c c' → L.routine (l.inner c (index + k + 1)) (l'.inner c' (index + k + 1))) :
    AnswersAlike (List.Forall₂ (ClosureParam.Alike L.routine)) (closureParams l index items)
      (closureParams l' index items') := by
  induction items generalizing items' index with
  | nil =>
    cases shaped
    exact .ok .nil
  | cons x rest ih =>
    cases shaped with | @cons _ x' _ rest' head tail =>
    have more : AnswersAlike (List.Forall₂ (ClosureParam.Alike L.routine))
        (closureParams l (index + 1) rest) (closureParams l' (index + 1) rest') :=
      ih (index + 1) tail fun k c c' found found' related => by
        rw [Nat.add_assoc index, Nat.add_comm 1 k]
        exact routines (k + 1) c c' found found' related
    cases head with
    | flat constant => cases x <;> first | exact .error _ | cases constant
    | code _ => exact .error _
    | list _ => exact .error _
    | @tuple a a' b b' names defaults =>
      rcases defaults.asCode with ⟨c, c', rfl, rfl, related⟩ | ⟨odd, odd'⟩
      · rw [closureParams, closureParams, ← names.text]
        cases a.text? with
        | none => exact .error _
        | some name =>
          have default := routines 0 c c' rfl rfl related
          exact more.bind fun _ _ params => .ok (.cons ⟨rfl, .some default⟩ params)
      · rw [closureParams, closureParams, ← names.text]
        · cases a.text? with
          | none => exact .error _
          | some name => exact more.bind fun _ _ params => .ok (.cons ⟨rfl, .none⟩ params)
        · exact odd'
        · exact odd

end OperandsShaped

variable {L : Link} {l l' : Level}

theorem closuresShaped {x x' : Operand} {source source' : Option Nat} (id : Nat)
    (scope : l.scope = l'.scope) (shaped : x.Shaped T x')
    (routines : ∀ k c c', (Instr.mk .proc x source).slot? k = some c →
      (Instr.mk .proc x' source').slot? k = some c' → T c c' →
      L.routine (l.inner c k) (l'.inner c' k)) :
    AnswersAlike (Closure.Alike L.routine) (closureOf l id x) (closureOf l' id x') := by
  cases shaped with
  | flat constant => cases x <;> first | exact .error _ | cases constant
  | code _ => exact .error _
  | list _ => exact .error _
  | @tuple a a' b b' params body =>
    cases params with
    | flat constant =>
      cases a <;> first | exact .error _ | cases constant
    | code _ => exact .error _
    | tuple _ _ => exact .error _
    | list params =>
      rcases body.asCode with ⟨c, c', rfl, rfl, related⟩ | ⟨odd, odd'⟩
      · rw [closureOf, closureOf]
        refine AnswersAlike.bind (params.params 0 fun k c c' found found' related => ?_)
          fun _ _ given => .ok ⟨rfl, given, routines 0 c c' rfl rfl related, scope⟩
        rw [Nat.zero_add]
        exact routines (k + 1) c c' found found' related
      · unfold closureOf
        split
        · rename_i same
          cases same
          exact (odd _ rfl).elim
        · split
          · rename_i same
            cases same
            exact (odd' _ rfl).elim
          · exact .error _

theorem Operand.Shaped.lists {P : List Operand → List Operand → Prop} {x x' : Operand}
    (shaped : x.Shaped T x') (lists : ∀ items items', x = .list items → x' = .list items' →
      OperandsShaped T items items' → P items items') : ListsAlike P x x' := by
  cases shaped with
  | flat constant => exact .odd (by rintro _ rfl; cases constant) (by rintro _ rfl; cases constant)
  | code _ => exact .odd (by simp) (by simp)
  | list alike => exact .list (lists _ _ rfl rfl alike)
  | tuple _ _ => exact .odd (by simp) (by simp)

theorem instrShaped {i i' : Instr} (opcode : i.opcode = i'.opcode) (scope : l.scope = l'.scope)
    (shaped : ¬ i.opcode.isJump → i.operand.Shaped T i'.operand)
    (routines : ∀ k c c', i.slot? k = some c → i'.slot? k = some c' → T c c' →
      L.routine (l.inner c k) (l'.inner c' k))
    (target : i.opcode.isJump → TargetsAlike L l l' i.operand i'.operand) :
    i.Alike L l l' i' := by
  obtain ⟨op, x, source⟩ := i
  obtain ⟨op', x', source'⟩ := i'
  change op = op' at opcode
  subst opcode
  change ¬ op.isJump → x.Shaped T x' at shaped
  refine ⟨rfl, ?_, ?_, ?_, ?_, target⟩
  · rintro ⟨⟩
    exact (shaped Bool.false_ne_true).constant
  · rintro ⟨⟩
    refine (shaped Bool.false_ne_true).lists fun items items' same same' alike => ?_
    change x = _ at same
    change x' = _ at same'
    subst same same'
    refine alike.arguments 0 fun k c c' found found' related => ?_
    rw [Nat.zero_add]
    exact routines k c c' found found' related
  · rintro ⟨⟩
    refine (shaped Bool.false_ne_true).lists fun items items' same same' alike => ?_
    change x = _ at same
    change x' = _ at same'
    subst same same'
    refine alike.properties 0 fun k c c' found found' related => ?_
    rw [Nat.mul_zero, Nat.zero_add]
    exact routines k c c' found found' related
  · rintro ⟨⟩
    exact fun id => closuresShaped id scope (shaped Bool.false_ne_true) routines

mutual

theorem Operand.Shaped.self : (x : Operand) → x.Shaped Eq x
  | .null => .flat rfl
  | .bool _ => .flat rfl
  | .int _ => .flat rfl
  | .long _ => .flat rfl
  | .double _ => .flat rfl
  | .str _ => .flat rfl
  | .char _ => .flat rfl
  | .code _ => .code rfl
  | .list items => .list (OperandsShaped.self items)
  | .tuple a b => .tuple (Operand.Shaped.self a) (Operand.Shaped.self b)

theorem OperandsShaped.self : (items : List Operand) → OperandsShaped Eq items items
  | [] => .nil
  | x :: rest => .cons (Operand.Shaped.self x) (OperandsShaped.self rest)

end

theorem instrSame (i : Instr) (code : l.routine.code = l'.routine.code) (ip : l.ip = l'.ip)
    (scope : l.scope = l'.scope)
    (routines : ∀ k c, i.slot? k = some c → L.routine (l.inner c k) (l'.inner c k))
    (positions : ∀ t, L.position l.routine l'.routine t t) : i.Alike L l l' i := by
  refine instrShaped rfl scope (fun _ => .self i.operand) ?_ fun _ => ?_
  · rintro k c c' found - rfl
    exact routines k c found
  · cases given : i.operand.offset? with
    | none => exact .none given given
    | some offset =>
      cases found : jumpTarget? l.ip offset l.routine.code.length with
      | none => exact .out given given found (by rw [← ip, ← code, found])
      | some t => exact .inside given given found (by rw [← ip, ← code, found]) (positions t)

end Quill
