import Quill.Proofs.Flow.Optimized
import Quill.Proofs.Typing.Fragments

/-! Optimization keeps what is known of the stack. Where a block is folded, its constant is put on
the stack that the block began with, which is what the block did. -/
namespace Quill

theorem effectOptimized {i : Instr} {p q : Point} (effect : i.Effect p q) :
    i.optimize.Effect p q := by
  obtain ⟨op, x, source⟩ := i
  cases effect with
  | push push constant holds =>
    exact .push push ((optimizeShape x).constant.symm.trans constant) holds
  | pushNone op => exact .pushNone op
  | pushObject op list shapes =>
    cases list
    refine .pushObject op rfl (optimizedAll shapes ?_)
    rintro _ ⟨key, value, rfl⟩
    exact ⟨_, _, rfl⟩
  | pop op => exact .pop op
  | load op => exact .load op
  | store op => exact .store op
  | define op => exact .define op
  | getMember op => exact .getMember op
  | binary op => exact .binary op
  | unary op => exact .unary op
  | proc op function shapes =>
    cases function
    refine .proc op rfl (optimizedAll shapes ?_)
    rintro _ ⟨name, default, rfl⟩
    exact ⟨name, default.optimize, rfl⟩
  | call op list shapes =>
    cases list
    refine .call op rfl (optimizedAll shapes ?_)
    rintro _ ⟨name, code, rfl⟩
    exact ⟨_, _, rfl⟩
  | ret op => exact .ret op
  | beginScope op => exact .beginScope op
  | endScope op => exact .endScope op

theorem jumpsOptimized {i : Instr} {p q : Point} (jumps : i.Jumps p q) : i.optimize.Jumps p q := by
  cases jumps with
  | always op => exact .always ((optimizeOpcode i).trans op)
  | branch op => exact .branch (by rwa [optimizeOpcode])

theorem fitsOptimized {i : Instr} {final : Option Point} {length ip : Nat} {points : Nat → Point}
    (fits : i.Fits final length points ip) : i.optimize.Fits final length points ip := by
  cases fits with
  | straight effect => exact .straight (effectOptimized effect)
  | jump target jumps given found next =>
    refine .jump target (jumpsOptimized jumps) ?_ found ?_
    · rw [optimizeOperand, offsetOptimized, given]
    · rw [optimizeOpcode]
      exact next
  | exit op ends => exact .exit ((optimizeOpcode i).trans op) ends

namespace Instr

variable {i : Instr}

theorem Effect.notJump {p q : Point} (effect : i.Effect p q) : i.opcode.isJump = false := by
  cases effect with
  | binary op => exact (Opcode.binaryOnly op).2
  | unary op => exact (Opcode.unaryOnly op).2
  | _ => simp_all [Opcode.isJump]

theorem Fits.effect {final : Option Point} {length ip : Nat} {points : Nat → Point}
    (fits : i.Fits final length points ip) (other : i.opcode.isJump = false)
    (stays : i.opcode ≠ .exit) : i.Effect (points ip) (points (ip + 1)) := by
  cases fits with
  | straight effect => exact effect
  | jump _ jumps _ _ _ => cases other.symm.trans jumps.isJump
  | exit op _ => exact (stays op).elim

theorem Effect.ofPush {p q : Point} (effect : i.Effect p q) (push : i.opcode = .push) :
    ∃ v k, Value.ofOperand? i.operand = some v ∧ k.Holds v ∧ q = ⟨k :: p.stack, p.blocks⟩ := by
  cases effect with
  | push _ constant holds => exact ⟨_, _, constant, holds, rfl⟩
  | binary op => rw [push] at op; cases op
  | unary op => rw [push] at op; cases op
  | _ => cases push.symm.trans ‹_›

theorem Effect.ofBinary {q : Point} {k l : Known} {s : List Known} {b : Nat}
    (effect : i.Effect ⟨k :: l :: s, b⟩ q) (binary : i.opcode.isBinary) :
    q = ⟨.value :: s, b⟩ := by
  cases effect with
  | binary _ => rfl
  | unary op => rw [(Opcode.binaryOnly binary).1] at op; cases op
  | _ => simp_all [Opcode.isBinary]

theorem Effect.ofUnary {q : Point} {k : Known} {s : List Known} {b : Nat}
    (effect : i.Effect ⟨k :: s, b⟩ q) (unary : i.opcode.isUnary) : q = ⟨.value :: s, b⟩ := by
  cases effect with
  | unary _ => rfl
  | binary op => rw [(Opcode.unaryOnly unary).1] at op; cases op
  | _ => simp_all [Opcode.isUnary]

theorem Effect.ofReturn {p q : Point} (effect : i.Effect p q) (returns : i.opcode = .ret) :
    ∃ k, p.stack = [k] := by
  cases effect with
  | ret _ => exact ⟨_, rfl⟩
  | binary op => rw [returns] at op; cases op
  | unary op => rw [returns] at op; cases op
  | _ => cases returns.symm.trans ‹_›

theorem Effect.ofCall {p q : Point} (effect : i.Effect p q) (call : i.opcode = .call) :
    ∃ items k s b, i.operand = .list items ∧ (∀ x ∈ items, ArgumentShape x) ∧ p = ⟨k :: s, b⟩ ∧
      q = ⟨.value :: s, b⟩ := by
  cases effect with
  | call _ list shapes => exact ⟨_, _, _, _, list, shapes, rfl, rfl⟩
  | binary op => rw [call] at op; cases op
  | unary op => rw [call] at op; cases op
  | _ => cases call.symm.trans ‹_›

end Instr

theorem typedFolds {final : Option Point} : (typedFlow final).Folds where
  jumpsOnly jumps := jumps.isJump
  jumpsSame jumps same := by
    cases jumps with
    | always op => exact .always (same.trans op)
    | branch op => exact .branch (by rwa [same])
  effectOnly effect := effect.1.notJump
  binary leftPush _ leftEffect rightPush _ rightEffect binary _ opEffect folding := by
    obtain ⟨_, _, -, -, rfl⟩ := leftEffect.1.ofPush leftPush
    obtain ⟨_, _, -, -, rfl⟩ := rightEffect.1.ofPush rightPush
    cases opEffect.1.ofBinary binary
    exact ⟨.push rfl folding trivial, fun slot c found => by rw [flatSlot folding] at found; cases found⟩
  unary push _ operandEffect unary _ opEffect folding := by
    obtain ⟨_, _, -, -, rfl⟩ := operandEffect.1.ofPush push
    cases opEffect.1.ofUnary unary
    exact ⟨.push rfl folding trivial, fun slot c found => by rw [flatSlot folding] at found; cases found⟩

theorem optimizedTyped {final : Option Point} {code : Code} (typed : Typed final code) :
    Typed final (optimize code) := by
  induction typed with
  | @intro final code points start stop fits inner ih =>
    have operands : (typedFlow final).Covers (optimizeInstrs code).length points 0
        (optimizeInstrs code) := by
      refine typedCovers.mpr ⟨fun ip i found => ?_, fun i inside slot c holds => ?_⟩
      · obtain ⟨j, here, rfl⟩ := instrOfOptimized found
        rw [optimizeLength]
        exact fitsOptimized (fits ip j here)
      · obtain ⟨ip, found⟩ := List.getElem?_of_mem inside
        obtain ⟨j, here, rfl⟩ := instrOfOptimized found
        rw [slotOptimized] at holds
        obtain ⟨c', within, rfl⟩ := Option.map_eq_some_iff.mp holds
        exact ih j (List.mem_of_getElem? here) slot c' within
    obtain ⟨fits, inner⟩ := typedCovers.mp (operands.folded typedFolds)
    refine .intro (fun p => points (originAt (optimizeInstrs code) p)) ?_ ?_ fits inner
    · rw [originZero, start]
    · intro p ends q behind
      rw [optimize, foldedLength] at behind
      rw [originEnd (List.getElem?_eq_none behind), optimizeLength]
      exact stop p ends _ (Nat.le_refl _)

end Quill
