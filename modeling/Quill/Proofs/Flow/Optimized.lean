import Quill.Proofs.Flow.Nested
import Quill.Proofs.Folding.Blocks

/-! Flows through optimized code. A block that is folded to a constant leads where the constant
does, if operators on constants lead where their results do; other instructions stay as they are,
and jumps lead to the same points. -/
namespace Quill

theorem optimizeMap (items : List Operand) :
    optimizeOperands items = items.map Operand.optimize := by
  induction items with
  | nil => rfl
  | cons x rest ih => rw [optimizeOperands, List.map_cons, ih]

theorem optimizedAll {P Q : Operand → Prop} {items : List Operand} (all : ∀ x ∈ items, P x)
    (keeps : ∀ x, P x → Q x.optimize) : ∀ x ∈ optimizeOperands items, Q x := by
  rw [optimizeMap]
  intro x inside
  obtain ⟨y, member, rfl⟩ := List.mem_map.mp inside
  exact keeps y (all y member)

theorem argumentOptimized (items : List Operand) (slot : Nat) :
    argumentCode? (optimizeOperands items) slot = (argumentCode? items slot).map optimize := by
  unfold argumentCode?
  rw [optimizeMap, List.getElem?_map]
  cases items[slot]? with
  | none => rfl
  | some x =>
    cases x with
    | tuple a b => cases b <;> rfl
    | _ => rfl

theorem propertyOptimized (items : List Operand) (slot : Nat) :
    propertyCode? (optimizeOperands items) slot = (propertyCode? items slot).map optimize := by
  unfold propertyCode?
  rw [optimizeMap, List.getElem?_map]
  cases items[slot / 2]? with
  | none => rfl
  | some x =>
    cases x with
    | tuple a b =>
      cases a with
      | code key =>
        cases b with
        | code value => exact congrArg some (apply_ite optimize _ _ _).symm
        | _ => rfl
      | _ => cases b <;> rfl
    | _ => rfl

theorem slotOptimized (i : Instr) (slot : Nat) :
    i.optimize.slot? slot = (i.slot? slot).map optimize := by
  obtain ⟨op, x, source⟩ := i
  rw [Instr.optimize]
  cases x with
  | list items =>
    cases op with
    | call => exact argumentOptimized items slot
    | pushObject => exact propertyOptimized items slot
    | _ => rfl
  | tuple a b =>
    cases op with
    | proc =>
      cases a with
      | list params =>
        cases b with
        | code body =>
          cases slot with
          | zero => rfl
          | succ slot => exact argumentOptimized params slot
        | _ => rfl
      | _ => cases b <;> rfl
    | _ => rfl
  | _ => cases op <;> rfl

theorem Opcode.binaryOnly {op : Opcode} (binary : op.isBinary) :
    op.isUnary = false ∧ op.isJump = false := by
  cases op <;> first | exact ⟨rfl, rfl⟩ | cases binary

theorem Opcode.unaryOnly {op : Opcode} (unary : op.isUnary) :
    op.isBinary = false ∧ op.isJump = false := by
  cases op <;> first | exact ⟨rfl, rfl⟩ | cases unary

namespace Flow

variable {σ : Type}

/-- A flow that does not tell a constant from the operator and the operands it is the result of, and
does not look at how far a jump goes. -/
structure Folds (F : Flow σ) : Prop where
  jumpsOnly {i : Instr} {p q : σ} : F.jumps i p q → i.opcode.isJump
  jumpsSame {i i' : Instr} {p q : σ} : F.jumps i p q → i'.opcode = i.opcode → F.jumps i' p q
  effectOnly {i : Instr} {p q : σ} : F.effect i p q → i.opcode.isJump = false
  binary {left right op : Instr} {p q r s : σ} {a b v : Value} {x : Operand}
    (leftPush : left.opcode = .push) (leftConstant : Value.ofOperand? left.operand = some a)
    (leftEffect : F.effect left p q) (rightPush : right.opcode = .push)
    (rightConstant : Value.ofOperand? right.operand = some b) (rightEffect : F.effect right q r)
    (binary : op.opcode.isBinary) (given : Value.binary op.opcode a b = .ok v)
    (opEffect : F.effect op r s) (folding : Value.ofOperand? x = some v) :
    F.effect (.mk .push x op.source) p s
  unary {operand op : Instr} {p q r : σ} {a v : Value} {x : Operand}
    (push : operand.opcode = .push) (constant : Value.ofOperand? operand.operand = some a)
    (operandEffect : F.effect operand p q) (unary : op.opcode.isUnary)
    (given : Value.unary op.opcode a = .ok v) (opEffect : F.effect op q r)
    (folding : Value.ofOperand? x = some v) : F.effect (.mk .push x op.source) p r

variable {F : Flow σ} {length ip : Nat} {points : Nat → σ} {i : Instr} {code : Code} {p q : σ}

theorem Fits.effect (fits : F.Fits length points ip i) (folds : F.Folds)
    (other : i.opcode.isJump = false) (stays : i.opcode ≠ .exit) :
    F.effect i (points ip) (points (ip + 1)) := by
  cases fits with
  | straight effect => exact effect
  | jump _ jumps _ _ _ => cases other.symm.trans (folds.jumpsOnly jumps)
  | exit op _ => exact (stays op).elim

theorem Covers.block (covers : F.Covers code.length points 0 code) (folds : F.Folds)
    {targets : List Nat} {k : Kept} {width : Nat} (block : StandsFor targets code k width)
    {v : Value} (constant : k.constant? = some v) :
    F.effect k.instr (points k.origin) (points (k.origin + width)) := by
  induction block generalizing v with
  | @single ip i found =>
    have push : i.opcode = .push := (constantPush constant).1
    exact (covers.fits found).effect folds (by rw [push]; rfl) (by rw [push]; nofun)
  | @binary left right op folded a b first second joined last found folded' ih ih' =>
    obtain ⟨binary, -, -, l, r, w, x, leftConstant, rightConstant, given, folding, rfl⟩ :=
      foldedBinary folded'
    obtain ⟨leftPush, leftValue⟩ := constantPush leftConstant
    obtain ⟨rightPush, rightValue⟩ := constantPush rightConstant
    have below := ih leftConstant
    have above := ih' rightConstant
    rw [joined, Nat.add_assoc] at above
    have effect := (covers.fits found).effect folds (Opcode.binaryOnly binary).2
      (fun exit => by rw [Kept.opcode, exit] at binary; cases binary)
    rw [last, joined, Nat.add_assoc, Nat.add_assoc] at effect
    exact folds.binary leftPush leftValue below rightPush rightValue above binary given effect folding
  | @unary operand op folded a first last found folded' ih =>
    obtain ⟨unary, -, l, w, x, operandConstant, given, folding, rfl⟩ := foldedUnary folded'
    obtain ⟨push, value⟩ := constantPush operandConstant
    have below := ih operandConstant
    have effect := (covers.fits found).effect folds (Opcode.unaryOnly unary).2
      (fun exit => by rw [Kept.opcode, exit] at unary; cases unary)
    rw [last, Nat.add_assoc] at effect
    exact folds.unary push value below unary given effect folding

theorem Covers.folded (covers : F.Covers code.length points 0 code) (folds : F.Folds) :
    F.Covers (foldConstants code).length (fun p => points (originAt code p)) 0
      (foldConstants code) := by
  intro p i found
  rw [Nat.zero_add, foldedLength]
  rw [foldedAt] at found
  obtain ⟨k, kept, rfl⟩ := Option.map_eq_some_iff.mp found
  obtain ⟨inside, -⟩ := List.getElem?_eq_some_iff.mp kept
  obtain ⟨origin, width, block, next⟩ := blockAt kept
  rcases standsForCases block with ⟨rfl, single⟩ | ⟨v, constant⟩
  · rw [origin] at single
    cases covers.fits single with
    | straight effect =>
      rw [movedOther (by rw [Kept.opcode, folds.effectOnly effect]; exact Bool.false_ne_true)]
      refine .straight ?_
      rw [next]
      exact effect
    | @jump offset t jumps given reached stays =>
      have target : k.instr.target? k.origin code.length = some t := by
        rw [Instr.target?, if_pos (folds.jumpsOnly jumps), given, Option.bind_some, origin, reached]
      have isTarget : t ∈ jumpTargets code := by
        refine List.mem_filterMap.mpr ⟨(k.instr, k.origin), ?_, target⟩
        rw [List.mk_mem_zipIdx_iff_getElem?, origin]
        exact single
      obtain ⟨q, position, inside', there⟩ := targetLands isTarget
      rw [movedJump target position]
      rw [← there] at jumps
      refine .jump q (folds.jumpsSame jumps rfl) rfl (movedTarget inside inside' next there reached)
        fun other => ?_
      · rw [next, there]
        exact stays other
    | exit op exits =>
      rw [movedOther (by rw [Kept.opcode, op]; exact Bool.false_ne_true)]
      exact .exit op exits
  · have push : k.opcode = .push := (constantPush constant).1
    have effect := covers.block folds block constant
    rw [origin, ← next] at effect
    rw [movedOther (by rw [push]; exact Bool.false_ne_true)]
    exact .straight effect

theorem Piece.folded (piece : F.Piece code p q) (folds : F.Folds) :
    F.Piece (foldConstants code) p q := by
  obtain ⟨points, rfl, rfl, covers⟩ := piece
  refine ⟨_, ?_, ?_, covers.folded folds⟩
  · rw [originZero]
  · rw [foldedLength, originLast]

end Flow

namespace NestedFlow

variable {σ : Type}

structure Folds (F : NestedFlow σ) : Prop extends Flow.Folds F.toFlow where
  effectOptimized {i : Instr} {p q : σ} : F.effect i p q → F.effect i.optimize p q
  entersOptimized {i : Instr} {p q first last : σ} {slot : Nat} :
    F.enters i p q slot first last → F.enters i.optimize p q slot first last

variable {F : NestedFlow σ} {code : Code} {p q : σ}

theorem pushHolds {i : Instr} (push : i.opcode = .push) : F.Holds i p q := by
  intro slot c holds
  unfold Instr.slot? at holds
  rw [push] at holds
  cases holds

theorem Folds.closed (folds : F.Folds) : F.closed.Folds where
  jumpsOnly jumps := jumps.2
  jumpsSame jumps same := ⟨folds.jumpsSame jumps.1 same, same ▸ jumps.2⟩
  effectOnly effect := folds.effectOnly effect.1
  binary leftPush leftConstant leftEffect rightPush rightConstant rightEffect binary given opEffect
      folding :=
    ⟨folds.binary leftPush leftConstant leftEffect.1 rightPush rightConstant rightEffect.1 binary
      given opEffect.1 folding, pushHolds rfl⟩
  unary push constant operandEffect unary given opEffect folding :=
    ⟨folds.unary push constant operandEffect.1 unary given opEffect.1 folding, pushHolds rfl⟩

theorem Runs.optimized (runs : F.Runs code p q) (folds : F.Folds) : F.Runs (optimize code) p q := by
  induction runs with
  | @intro code points first last covers enters inner ih =>
    have operands : F.closed.Piece (optimizeInstrs code) (points 0) (points code.length) := by
      refine ⟨points, rfl, by rw [optimizeLength], fun ip i found => ?_⟩
      obtain ⟨j, here, rfl⟩ := instrOfOptimized found
      rw [optimizeLength, Nat.zero_add]
      cases covers.fits here with
      | straight effect =>
        refine .straight ⟨folds.effectOptimized effect, fun slot c holds => ?_⟩
        rw [slotOptimized] at holds
        obtain ⟨c, within, rfl⟩ := Option.map_eq_some_iff.mp holds
        exact ⟨first ip slot, last ip slot, folds.entersOptimized (enters ip j here slot c within),
          ih ip j here slot c within⟩
      | jump target jumps given found next =>
        refine .jump target ⟨folds.jumpsSame jumps (optimizeOpcode j), ?_⟩ ?_ found ?_
        · rw [optimizeOpcode]
          exact folds.jumpsOnly jumps
        · rw [optimizeOperand, offsetOptimized, given]
        · rw [optimizeOpcode]
          exact next
      | exit op exits => exact .exit ((optimizeOpcode j).trans op) exits
    exact runsOfPiece (operands.folded folds.closed)

end NestedFlow

end Quill
