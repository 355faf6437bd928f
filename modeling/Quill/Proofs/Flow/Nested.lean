import Quill.Proofs.Flow.Pieces

/-! Flows through code with further code in its operands. What is known where a slot's code begins
and ends depends on the points around the instruction that holds it. -/
namespace Quill

structure NestedFlow (σ : Type) extends Flow σ where
  -- From before and behind an instruction to before and behind the code in one of its slots.
  enters : Instr → σ → σ → Nat → σ → σ → Prop

namespace NestedFlow

variable {σ : Type}

inductive Runs (F : NestedFlow σ) : Code → σ → σ → Prop where
  | intro {code : Code} (points : Nat → σ) (first last : Nat → Nat → σ)
      (covers : F.toFlow.Covers code.length points 0 code)
      (enters : ∀ ip (i : Instr), code[ip]? = some i → ∀ slot c, i.slot? slot = some c →
        F.enters i (points ip) (points (ip + 1)) slot (first ip slot) (last ip slot))
      (inner : ∀ ip (i : Instr), code[ip]? = some i → ∀ slot c, i.slot? slot = some c →
        Runs F c (first ip slot) (last ip slot)) :
      Runs F code (points 0) (points code.length)

def Holds (F : NestedFlow σ) (i : Instr) (p q : σ) : Prop :=
  ∀ slot c, i.slot? slot = some c →
    ∃ first last, F.enters i p q slot first last ∧ F.Runs c first last

def closed (F : NestedFlow σ) : Flow σ where
  effect i p q := F.effect i p q ∧ F.Holds i p q
  jumps i p q := F.jumps i p q ∧ i.opcode.isJump
  exits := F.exits

variable {F : NestedFlow σ} {code : Code} {p q : σ} {i : Instr}

theorem exitHasNoSlot (op : i.opcode = .exit) {slot : Nat} {c : Code} : i.slot? slot ≠ some c := by
  unfold Instr.slot?
  rw [op]
  exact (Option.some_ne_none c).symm

theorem Runs.piece (jumpsOnly : ∀ {i : Instr} {p q : σ}, F.jumps i p q → i.opcode.isJump)
    (runs : F.Runs code p q) :
    F.closed.Piece code p q := by
  cases runs with
  | intro points first last covers enters inner =>
    refine ⟨points, rfl, rfl, fun ip i found => ?_⟩
    have fits := covers ip i found
    cases fits with
    | straight effect =>
      refine .straight ⟨effect, fun slot c holds => ⟨first ip slot, last ip slot, ?_, ?_⟩⟩
      · rw [Nat.zero_add]
        exact enters ip i found slot c holds
      · exact inner ip i found slot c holds
    | jump target jumps given found next =>
      exact .jump target ⟨jumps, jumpsOnly jumps⟩ given found next
    | exit op exits => exact .exit op exits

theorem runsOfPiece (piece : F.closed.Piece code p q) : F.Runs code p q := by
  obtain ⟨points, rfl, rfl, covers⟩ := piece
  have inside (ip slot : Nat) : ∃ first last, ∀ (i : Instr) (c : Code), code[ip]? = some i →
      i.slot? slot = some c →
      F.enters i (points ip) (points (ip + 1)) slot first last ∧ F.Runs c first last := by
    cases found : code[ip]? with
    | none => exact ⟨points 0, points 0, nofun⟩
    | some i =>
      cases holds : i.slot? slot with
      | none =>
        refine ⟨points 0, points 0, ?_⟩
        rintro _ c ⟨⟩ there
        cases holds.symm.trans there
      | some c =>
        have fits := covers.fits found
        cases fits with
        | straight effect =>
          obtain ⟨first, last, enters, runs⟩ := effect.2 slot c holds
          refine ⟨first, last, ?_⟩
          rintro _ c' ⟨⟩ there
          cases holds.symm.trans there
          exact ⟨enters, runs⟩
        | jump target jumps _ _ _ => exact absurd holds (jumpHasNoSlot jumps.2)
        | exit op _ => exact absurd holds (exitHasNoSlot op)
  choose first last inside using inside
  refine .intro points first last (fun ip i found => ?_)
    (fun ip i found slot c holds => (inside ip slot i c found holds).1)
    fun ip i found slot c holds => (inside ip slot i c found holds).2
  have fits := covers ip i found
  cases fits with
  | straight effect => exact .straight effect.1
  | jump target jumps given found next => exact .jump target jumps.1 given found next
  | exit op exits => exact .exit op exits

theorem flatPiece {op : Opcode} {x : Operand} {source : Option Nat} {v : Value}
    (constant : Value.ofOperand? x = some v) (effect : F.effect (.mk op x source) p q) :
    F.closed.Piece [.mk op x source] p q :=
  .one ⟨effect, fun slot c found => by rw [flatSlot constant] at found; cases found⟩

end NestedFlow

end Quill
