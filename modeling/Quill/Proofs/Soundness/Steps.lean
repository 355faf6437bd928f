import Quill.Proofs.Folding.Blocks
import Quill.Proofs.Soundness.Context

/-! Steps of machines that keep to types lead to such machines. -/
namespace Quill

variable {nodes : List Bound.Node} {types : TypedNames} {values : List Bound.Expr} {nested : Bool}
  {cells : List Cell} {m : Machine} {i : Instr} {p q last : View} {note : Bound.Note}
  {properties : List Bound.Property}

theorem propertiesListed {items : List Operand} (op : i.opcode = .pushObject)
    (operand : i.operand = .list items) (shapes : ∀ x ∈ items, PropertyShape x)
    (length : items.length = properties.length)
    (holds : (views nodes).Holds i ⟨types, none, values, nested⟩
      ⟨types, none, .object note properties :: values, nested⟩) :
    List.Forall₂ (PropertySeen nodes types) items properties := by
  have slots (slot : Nat) (c : Code) (found : propertyCode? items slot = some c) :
      ∃ property, properties[slot / 2]? = some property ∧
        (views nodes).Runs c ⟨types, none, [], true⟩
          (if slot % 2 = 0 then property.keyView types
            else ⟨types, none, [property.value.core], true⟩) := by
    obtain ⟨first, last, enters, runs⟩ := holds slot c (by simp only [Instr.slot?, op, operand, found])
    cases enters with
    | key object listed even =>
      cases object
      exact ⟨_, listed, by rwa [if_pos even]⟩
    | value object listed odd =>
      cases object
      exact ⟨_, listed, by rwa [if_neg odd]⟩
  refine List.forall₂_iff_get.mpr ⟨length, fun index inside inside' => ?_⟩
  obtain ⟨key, value, same⟩ := shapes _ (List.get_mem items ⟨index, inside⟩)
  have found : items[index]? = some (.tuple (.code key) (.code value)) := by
    rw [← same]
    exact List.getElem?_eq_getElem inside
  have listed : properties[index]? = some (properties.get ⟨index, inside'⟩) :=
    List.getElem?_eq_getElem inside'
  obtain ⟨_, first, keys⟩ := slots (2 * index) key (by
    simp only [propertyCode?, Nat.mul_div_cancel_left index Nat.two_pos, found, Nat.mul_mod_right,
      if_pos])
  obtain ⟨_, second, runs⟩ := slots (2 * index + 1) value (by
    simp only [propertyCode?, show (2 * index + 1) / 2 = index by omega, found,
      show (2 * index + 1) % 2 = 1 by omega, if_neg Nat.one_ne_zero])
  rw [Nat.mul_div_cancel_left index Nat.two_pos, listed] at first
  rw [show (2 * index + 1) / 2 = index by omega, listed] at second
  cases first
  cases second
  rw [if_pos (Nat.mul_mod_right 2 index)] at keys
  rw [if_neg (by omega)] at runs
  exact ⟨key, value, same, keys, runs⟩

theorem unaryDivides {op : Opcode} {v : Value} : Value.unary op v ≠ .error .divisionByZero := by
  intro given
  unfold Value.unary at given
  split at given <;> cases given

namespace Machine

namespace Sees

theorem pushes {e : Bound.Expr} {v : Value} (sees : m.Sees nodes p last)
    (found : m.current.instr? = some i) (leaves : i.Leaves nodes e) (admits : e.Admits v)
    (holds : List.Forall₂ (Cell.Holds nodes) cells values)
    (next : (views nodes).closed.Stands m.current.routine.code (m.current.ip + 1)
      ⟨p.types, none, e :: values, p.nested⟩ last) : (m.push v cells).WellTyped nodes :=
  sees.goes (.values (.cons ⟨(sourceOf found).trans leaves.source, leaves.known, admits⟩ holds)) next
    rfl rfl

theorem straight (sees : m.Sees nodes p last) (setup : Setup)
    (found : m.current.instr? = some i) (effect : i.Sees nodes p q)
    (holds : (views nodes).Holds i p q)
    (next : (views nodes).closed.Stands m.current.routine.code (m.current.ip + 1) q last) :
    (m.exec setup i).WellTyped nodes := by
  obtain ⟨chain, here, typed⟩ := sees.vars
  have stack := sees.stack
  cases effect with
  | constant op operand leaves admits =>
    rw [execPush op operand]
    exact sees.pushes found leaves admits stack.held next
  | blank op leaves admits =>
    simp only [exec, op]
    exact sees.pushes found leaves admits stack.held next
  | cue op operand source admits =>
    rw [execPush op operand]
    exact sees.goes (.cue ((sourceOf found).trans source) admits stack.held) next rfl rfl
  | load op declared leaves admits =>
    obtain ⟨source, rest, whole, holds⟩ := stack.named
    obtain ⟨v, given, has⟩ := typed.get declared
    simp only [exec, op, execLoad, popName, whole, here.get, given]
    exact sees.pushes found leaves (admits v has) holds next
  | store op declared leaves fits admits =>
    obtain ⟨source, rest, whole, holds⟩ := stack.named
    obtain ⟨x, below, value, others, rfl⟩ := List.forall₂_cons_right_iff.mp holds
    simp only [exec, op, execStore, popAssignment, popName, whole]
    have assigned := sees.withScopes
      ⟨_, here.assign, typed.assign declared (fits x.value value.admits)⟩
    exact assigned.pushes found leaves (admits x.value value.admits) others next
  | define op _ fits =>
    obtain ⟨source, rest, whole, holds⟩ := stack.named
    obtain ⟨x, below, value, others, rfl⟩ := List.forall₂_cons_right_iff.mp holds
    simp only [exec, op, execDefine, popAssignment, popName, whole]
    exact sees.leaves here.define (typed.define (fits x.value value.admits)) (.values others) next
      rfl rfl
  | member op leaves reads =>
    obtain ⟨key, rest, whole, -, admits, holds⟩ := stack.cued
    obtain ⟨x, below, object, others, rfl⟩ := List.forall₂_cons_right_iff.mp holds
    obtain ⟨v, given, left⟩ := reads x.value key.value object.admits admits
    simp only [exec, op, execGetMember, whole, given]
    exact sees.pushes found leaves left others next
  | computed op leaves reads =>
    obtain ⟨key, rest, keys, holds, whole⟩ := List.forall₂_cons_right_iff.mp stack.held
    obtain ⟨x, below, object, others, rfl⟩ := List.forall₂_cons_right_iff.mp holds
    obtain ⟨v, given, left⟩ := reads x.value key.value object.admits keys.admits
    simp only [exec, op, execGetMember, whole, given]
    exact sees.pushes found leaves left others next
  | binary op leaves computes =>
    obtain ⟨right, rest, rights, holds, whole⟩ := List.forall₂_cons_right_iff.mp stack.held
    obtain ⟨left, below, lefts, others, rfl⟩ := List.forall₂_cons_right_iff.mp holds
    have computed := computes left.value right.value lefts.admits rights.admits
    rw [execOfBinary op]
    cases given : Value.binary i.opcode left.value right.value with
    | ok v =>
      rw [given] at computed
      simp only [execBinary, whole, given]
      exact sees.pushes found leaves computed others next
    | error reason =>
      rw [given] at computed
      cases computed
      simp only [execBinary, whole, given]
      exact excused setup right.source .divisionByZero
  | unary op leaves computes =>
    obtain ⟨operand, rest, operands, holds, whole⟩ := List.forall₂_cons_right_iff.mp stack.held
    have computed := computes operand.value operands.admits
    rw [execOfUnary op]
    cases given : Value.unary i.opcode operand.value with
    | ok v =>
      rw [given] at computed
      simp only [execUnary, whole, given]
      exact sees.pushes found leaves computed holds next
    | error reason =>
      rw [given] at computed
      cases computed
      exact (unaryDivides given).elim
  | object op operand shapes length leaves keys type =>
    simp only [exec, op, operand]
    have makes : m.Makes nodes _ _ _ last _ :=
      ⟨⟨sees.frames, (sourceOf found).trans leaves.source, leaves.known, keys, type,
        _, stack.held, next⟩, sees.vars, sees.waits⟩
    exact makes.next setup [] rfl (List.forall_mem_nil _) (propertiesListed op operand shapes length holds)
  | pop op =>
    obtain ⟨x, rest, -, holds, whole⟩ := List.forall₂_cons_right_iff.mp stack.held
    simp only [exec, op, whole]
    exact sees.goes (.values holds) next rfl rfl
  | beginScope op =>
    simp only [exec, op, beginScope]
    exact sees.leaves here.child typed.opened (.values stack.held) next rfl rfl
  | endScope op inner =>
    cases typed with
    | cons first others =>
      obtain ⟨scope, enclosing, outer⟩ := here.enclosing (by
        rintro rfl
        cases others
        exact inner rfl)
      simp only [exec, op, endScope, enclosing, Option.getD_some]
      exact sees.leaves (q := ⟨_, none, [], false⟩) outer others (.values stack.held) next rfl rfl

theorem finishes (sees : m.Sees nodes p last) (setup : Setup) (used : p.cue = none)
    (outside : p.nested = false) : (m.endLevel setup).WellTyped nodes := by
  -- Outside of objects the end of the code is that of the program.
  obtain ⟨-, -, stack, waits⟩ := sees
  obtain ⟨types, cue, values, nested⟩ := p
  cases used
  cases outside
  unfold endLevel
  generalize m.outer = outer at waits
  cases waits
  exact .ended (cellsTyped stack.held)

theorem jumps {offset : Int32} {target : Nat} (sees : m.Sees nodes p last) (setup : Setup)
    (turns : i.Turns p q) (given : i.operand.offset? = some offset)
    (reached : jumpTarget? m.current.ip offset m.current.routine.code.length = some target)
    (there : (views nodes).closed.Stands m.current.routine.code target q last)
    (next : i.opcode ≠ .jmp →
      (views nodes).closed.Stands m.current.routine.code (m.current.ip + 1) q last) :
    (m.exec setup i).WellTyped nodes := by
  cases turns with
  | always op _ =>
    rw [execAlways given reached op]
    exact sees.goes sees.stack there rfl rfl
  | condition op =>
    obtain ⟨x, rest, -, holds, whole⟩ := List.forall₂_cons_right_iff.mp sees.stack.held
    rcases execConditional given reached op whole with same | same
    · rw [same]
      exact sees.goes (.values holds) there rfl rfl
    · rw [same]
      exact sees.goes (.values holds) (next (notAlways op)) rfl rfl

end Sees

namespace WellTyped

theorem exec (typed : m.WellTyped nodes) (setup : Setup) (found : m.current.instr? = some i) :
    (m.exec setup i).WellTyped nodes := by
  obtain ⟨p, last, sees, stands⟩ := typed
  cases stands.follows found with
  | straight q effect next => exact sees.straight setup found effect.1 effect.2 next
  | jump q target turns given reached there next =>
    exact sees.jumps setup turns.1 given reached there next
  | exit op exits =>
    simp only [Machine.exec, op]
    exact sees.finishes setup exits.1 exits.2

theorem limitExcused {limits : Limits} {fault : Fault} (beyond : m.overLimit? limits = some fault) :
    fault.Excused := by
  unfold overLimit? overLimit?.overStack at beyond
  repeat' split at beyond
  all_goals cases beyond
  · exact .stepLimit _
  · exact .stackLimit _
  · exact .stackLimit _

theorem step (typed : m.WellTyped nodes) (setup : Setup) : (m.step setup).WellTyped nodes := by
  cases found : m.current.instr? with
  | some i =>
    have counted : Machine.WellTyped nodes { m with steps := m.steps + 1 } := by
      obtain ⟨p, last, sees, stands⟩ := typed
      exact ⟨p, last, ⟨sees.frames, sees.vars, sees.stack, sees.waits⟩, stands⟩
    unfold Machine.step
    simp only [found]
    split
    · rename_i fault beyond
      exact excused setup none (limitExcused beyond)
    · exact counted.exec setup found
  | none =>
    obtain ⟨p, last, sees, stands⟩ := typed
    cases stands.ended found
    rw [stepEnds found sees.frames]
    exact sees.ends setup

theorem run (typed : m.WellTyped nodes) (setup : Setup) (fuel : Nat) :
    (m.run setup fuel).WellTyped nodes := by
  induction fuel generalizing m with
  | zero => exact .running typed
  | succ fuel ih =>
    have stepped := typed.step setup
    rw [Machine.run]
    cases next : m.step setup with
    | running m' =>
      rw [next] at stepped
      cases stepped with
      | running typed => exact ih typed
    | ended m' =>
      rw [next] at stepped
      exact stepped
    | failed m' e =>
      rw [next] at stepped
      exact stepped

end WellTyped

end Machine

end Quill
