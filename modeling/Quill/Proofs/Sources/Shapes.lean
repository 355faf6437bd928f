import Quill.Proofs.Codec.RoundTrip
import Quill.Proofs.Simulation.Shapes

/-! Code that is the same but for the sources of its instructions, at every depth: what it has at one
place, and what stands in the slots there. -/
namespace Quill

def SameUnsourced (c d : Code) : Prop := instrsUnsourced c = instrsUnsourced d

mutual

theorem Operand.unsourcedTwice (x : Operand) : x.unsourced.unsourced = x.unsourced := by
  cases x with
  | code body => exact congrArg Operand.code (instrsUnsourcedTwice body)
  | list items => exact congrArg Operand.list (operandsUnsourcedTwice items)
  | tuple a b => exact congrArg₂ Operand.tuple a.unsourcedTwice b.unsourcedTwice
  | _ => rfl

theorem operandsUnsourcedTwice (items : List Operand) :
    operandsUnsourced (operandsUnsourced items) = operandsUnsourced items := by
  cases items with
  | nil => rfl
  | cons x rest => exact congrArg₂ List.cons x.unsourcedTwice (operandsUnsourcedTwice rest)

theorem Instr.unsourcedTwice (i : Instr) : i.unsourced.unsourced = i.unsourced := by
  cases i with
  | mk op x _ => exact congrArg (Instr.mk op · none) x.unsourcedTwice

theorem instrsUnsourcedTwice (code : List Instr) :
    instrsUnsourced (instrsUnsourced code) = instrsUnsourced code := by
  cases code with
  | nil => rfl
  | cons i rest => exact congrArg₂ List.cons i.unsourcedTwice (instrsUnsourcedTwice rest)

end

mutual

theorem Operand.unsourcedShaped {x y : Operand} (same : x.unsourced = y.unsourced) :
    x.Shaped SameUnsourced y := by
  cases x with
  | code body =>
    cases y with
    | code _ => exact .code (Operand.code.inj same)
    | _ => cases same
  | list items =>
    cases y with
    | list _ => exact .list (operandsUnsourcedShaped (Operand.list.inj same))
    | _ => cases same
  | tuple a b =>
    cases y with
    | tuple _ _ =>
      obtain ⟨first, second⟩ := Operand.tuple.inj same
      exact .tuple (Operand.unsourcedShaped first) (Operand.unsourcedShaped second)
    | _ => cases same
  | _ =>
    cases y <;> cases same
    exact .flat rfl

theorem operandsUnsourcedShaped {items others : List Operand}
    (same : operandsUnsourced items = operandsUnsourced others) :
    OperandsShaped SameUnsourced items others := by
  cases items with
  | nil =>
    cases others with
    | nil => exact .nil
    | cons _ _ => cases same
  | cons x rest =>
    cases others with
    | nil => cases same
    | cons y others =>
      obtain ⟨head, tail⟩ := List.cons.inj same
      exact .cons (Operand.unsourcedShaped head) (operandsUnsourcedShaped tail)

end

theorem Operand.offsetUnsourced (x : Operand) : x.unsourced.offset? = x.offset? := by
  cases x <;> rfl

theorem Instr.opcodeUnsourced (i : Instr) : i.unsourced.opcode = i.opcode := by
  cases i with
  | mk _ _ _ => rfl

theorem Instr.operandUnsourced (i : Instr) : i.unsourced.operand = i.operand.unsourced := by
  cases i with
  | mk _ _ _ => rfl

theorem instrsUnsourcedMap (code : Code) : instrsUnsourced code = code.map Instr.unsourced := by
  induction code with
  | nil => rfl
  | cons i rest ih => rw [instrsUnsourced, ih, List.map_cons]

namespace SameUnsourced

variable {code other : Code}

theorem length (same : SameUnsourced code other) : code.length = other.length := by
  have lengths := congrArg List.length same
  rwa [instrsUnsourcedMap, instrsUnsourcedMap, List.length_map, List.length_map] at lengths

theorem atPlace (same : SameUnsourced code other) (ip : Nat) :
    Option.Rel (fun i j => i.unsourced = j.unsourced) code[ip]? other[ip]? := by
  have both := congrArg (·[ip]?) same
  simp only [instrsUnsourcedMap, List.getElem?_map] at both
  cases found : code[ip]? <;> cases found' : other[ip]? <;> rw [found, found'] at both
  · exact .none
  · cases both
  · cases both
  · exact .some (Option.some.inj both)

theorem append {rest more : Code} (same : SameUnsourced code other) (behind : SameUnsourced rest more) :
    SameUnsourced (code ++ rest) (other ++ more) := by
  unfold SameUnsourced at same behind ⊢
  rw [instrsUnsourcedMap] at same behind ⊢
  rw [instrsUnsourcedMap] at same behind ⊢
  rw [List.map_append, List.map_append, same, behind]

end SameUnsourced

end Quill
