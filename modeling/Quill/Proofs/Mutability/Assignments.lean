import Quill.Proofs.Flow.Optimized

/-! Code whose assignments are known. Each stands right behind the name of its variable, so what is
known of it can be read off the code, whatever leads there, also when constants are folded. -/
namespace Quill

/-- Each assignment has its name right before it, and with it and its source satisfies `P`. -/
def Assigns (P : Option Nat → String → Prop) (code : Code) : Prop :=
  ∀ ip (i : Instr), code[ip]? = some i → i.opcode = .store →
    ∃ before name source, ip = before + 1 ∧ code[before]? = some (.mk .push (.str name) source) ∧
      P i.source name

inductive Assigning (P : Option Nat → String → Prop) : Code → Prop where
  | intro {code : Code} (here : Assigns P code)
      (inner : ∀ i ∈ code, ∀ slot c, i.slot? slot = some c → Assigning P c) : Assigning P code

variable {P : Option Nat → String → Prop} {a b code : Code} {i : Instr}

theorem Assigns.append (first : Assigns P a) (second : Assigns P b) : Assigns P (a ++ b) := by
  intro ip j found op
  by_cases low : ip < a.length
  · rw [List.getElem?_append_left low] at found
    obtain ⟨before, name, source, rfl, named, known⟩ := first ip j found op
    exact ⟨before, name, source, rfl,
      (List.getElem?_append_left (Nat.lt_of_succ_lt low)).trans named, known⟩
  · obtain ⟨k, rfl⟩ := Nat.exists_eq_add_of_le (Nat.not_lt.mp low)
    rw [List.getElem?_append_right (Nat.le_add_right _ _), Nat.add_sub_cancel_left] at found
    obtain ⟨before, name, source, rfl, named, known⟩ := second k j found op
    refine ⟨a.length + before, name, source, rfl, ?_, known⟩
    rwa [List.getElem?_append_right (Nat.le_add_right _ _), Nat.add_sub_cancel_left]

namespace Assigning

theorem nil : Assigning P [] := .intro (fun _ _ found => nomatch found) nofun

theorem append (first : Assigning P a) (second : Assigning P b) : Assigning P (a ++ b) := by
  cases first with | intro here inner =>
  cases second with | intro here' inner' =>
  refine .intro (here.append here') fun i inside => ?_
  rcases List.mem_append.mp inside with inside | inside
  · exact inner i inside
  · exact inner' i inside

theorem one (other : i.opcode ≠ .store)
    (inner : ∀ slot c, i.slot? slot = some c → Assigning P c) : Assigning P [i] := by
  refine .intro (fun ip j found op => ?_) fun j inside => ?_
  · cases List.mem_singleton.mp (List.mem_of_getElem? found)
    exact (other op).elim
  · cases List.mem_singleton.mp inside
    exact inner

theorem flat {op : Opcode} {x : Operand} {source : Option Nat} {v : Value}
    (constant : Value.ofOperand? x = some v) (other : op ≠ .store) :
    Assigning P [.mk op x source] :=
  one other fun slot c found => by rw [flatSlot constant] at found; cases found

theorem cons (first : Assigning P [i]) (rest : Assigning P code) : Assigning P (i :: code) :=
  first.append rest

end Assigning

theorem Assigns.operands (assigns : Assigns P code) : Assigns P (optimizeInstrs code) := by
  intro ip i found op
  obtain ⟨j, here, rfl⟩ := instrOfOptimized found
  rw [optimizeOpcode] at op
  obtain ⟨before, name, source, rfl, named, known⟩ := assigns ip j here op
  refine ⟨before, name, source, rfl, ?_, ?_⟩
  · rw [optimizeAt, named]
    rfl
  · rwa [optimizeSource]

theorem standsForEnd {targets : List Nat} {k : Kept} {width : Nat}
    (block : StandsFor targets code k width) :
    width = 1 ∧ code[k.origin]? = some k.instr ∨
      ∃ (last : Nat) (op : Instr), k.origin + width = last + 1 ∧ code[last]? = some op ∧
        op.opcode ≠ .push := by
  cases block with
  | single found => exact .inl ⟨rfl, found⟩
  | @binary left right op folded w w' first second joined last found folds =>
    obtain ⟨binary, -, -, _, _, _, _, -, -, -, -, rfl⟩ := foldedBinary folds
    refine .inr ⟨op.origin, op.instr, ?_, found, fun push => ?_⟩
    · rw [last, joined]
      exact congrArg (· + 1) (Nat.add_assoc ..).symm
    · change op.instr.opcode.isBinary at binary
      rw [push] at binary
      cases binary
  | @unary operand op folded w first last found folds =>
    obtain ⟨unary, -, _, _, _, -, -, -, rfl⟩ := foldedUnary folds
    refine .inr ⟨op.origin, op.instr, ?_, found, fun push => ?_⟩
    · rw [last]
      rfl
    · change op.instr.opcode.isUnary at unary
      rw [push] at unary
      cases unary

theorem Assigns.folded (assigns : Assigns P code) : Assigns P (foldConstants code) := by
  -- The name in front of an assignment is kept with it: no block ends with a name, and no operator
  -- takes one from under an assignment.
  intro p i found op
  rw [foldedAt] at found
  obtain ⟨k, kept, rfl⟩ := Option.map_eq_some_iff.mp found
  rw [movedOpcode] at op
  obtain ⟨origin, width, block, -⟩ := blockAt kept
  have single : code[k.origin]? = some k.instr := by
    rcases standsForCases block with ⟨-, single⟩ | ⟨v, constant⟩
    · exact single
    · cases op.symm.trans (constantPush constant).1
  obtain ⟨before, name, source, next, named, known⟩ := assigns _ _ single op
  cases p with
  | zero =>
    rw [originZero] at origin
    omega
  | succ q =>
    have inside : q < (keptOf code).length :=
      Nat.lt_of_succ_lt (List.getElem?_eq_some_iff.mp kept).1
    have kept' := List.getElem?_eq_getElem inside
    obtain ⟨origin', width', block', ends⟩ := blockAt kept'
    rcases standsForEnd block' with ⟨rfl, single'⟩ | ⟨last, op', stops, found', other⟩
    · have here : (keptOf code)[q].origin = before := by omega
      rw [here, named] at single'
      refine ⟨q, name, source, rfl, ?_, ?_⟩
      · rw [foldedAt, kept', Option.map_some, movedOther, Option.some.inj single']
        rw [Kept.opcode, ← Option.some.inj single']
        exact Bool.false_ne_true
      · rwa [movedSource]
    · rw [show last = before by omega, named] at found'
      cases found'
      exact (other rfl).elim

theorem foldedSlot {slot : Nat} {c : Code} (inside : i ∈ foldConstants code)
    (holds : i.slot? slot = some c) : ∃ j ∈ code, j.slot? slot = some c := by
  obtain ⟨p, found⟩ := List.getElem?_of_mem inside
  rw [foldedAt] at found
  obtain ⟨k, kept, rfl⟩ := Option.map_eq_some_iff.mp found
  obtain ⟨-, width, block, -⟩ := blockAt kept
  by_cases jump : k.opcode.isJump
  · exact absurd holds (jumpHasNoSlot (by rwa [movedOpcode]))
  rw [movedOther jump] at holds
  rcases standsForCases block with ⟨-, single⟩ | ⟨v, constant⟩
  · exact ⟨k.instr, List.mem_of_getElem? single, holds⟩
  · have push : k.instr.opcode = .push := (constantPush constant).1
    unfold Instr.slot? at holds
    rw [push] at holds
    cases holds

theorem Assigning.optimized (assigning : Assigning P code) : Assigning P (optimize code) := by
  induction assigning with
  | @intro code here inner ih =>
    refine .intro here.operands.folded fun i inside slot c holds => ?_
    obtain ⟨j, before, holds⟩ := foldedSlot inside holds
    obtain ⟨ip, found⟩ := List.getElem?_of_mem before
    obtain ⟨j, here, rfl⟩ := instrOfOptimized found
    rw [slotOptimized] at holds
    obtain ⟨c, within, rfl⟩ := Option.map_eq_some_iff.mp holds
    exact ih j (List.mem_of_getElem? here) slot c within

end Quill
