import Quill.Proofs.Folding.Places
import Quill.Proofs.Simulation.Values

/-! What folding leaves to fold. A window is an operator behind its constant operands that gives a
result for them, with no jump to what follows its first instruction. Folded code has none: where one
was not folded, a jump of the code led inside, and the folded code has that jump too. -/
namespace Quill

def Instr.constant? (i : Instr) : Option Value :=
  if i.opcode = .push then Value.ofOperand? i.operand else none

inductive Window (code : Code) (ip : Nat) : Prop where
  | binary {left right op : Instr} {a b v : Value} (first : code[ip]? = some left)
      (second : code[ip + 1]? = some right) (last : code[ip + 2]? = some op)
      (lefts : left.constant? = some a) (rights : right.constant? = some b)
      (operator : op.opcode.isBinary) (given : Value.binary op.opcode a b = .ok v)
      (free : ip + 1 ∉ jumpTargets code) (free' : ip + 2 ∉ jumpTargets code)
  | unary {operand op : Instr} {a v : Value} (first : code[ip]? = some operand)
      (last : code[ip + 1]? = some op) (operands : operand.constant? = some a)
      (operator : op.opcode.isUnary) (given : Value.unary op.opcode a = .ok v)
      (free : ip + 1 ∉ jumpTargets code)

variable {targets : List Nat} {code : Code}

theorem operatorStays {op : Opcode} (operator : op.isBinary ∨ op.isUnary) :
    ¬ op.isJump ∧ op ≠ .push := by
  cases op <;> first | exact ⟨Bool.false_ne_true, Opcode.noConfusion⟩ |
    exact operator.elim nofun nofun

theorem constantStays {i : Instr} {v : Value} (constant : i.constant? = some v) :
    ¬ i.opcode.isJump := by
  have push : i.opcode = .push := (constantPush (k := ⟨i, 0⟩) constant).1
  rw [push]
  exact Bool.false_ne_true

/-! ### What folds -/

theorem Value.binaryOperand {op : Opcode} {a b v : Value} (given : binary op a b = .ok v) :
    v.operand?.isSome := by
  unfold binary integerQuotient at given
  cases op <;> simp only [reduceCtorEq] at given <;>
    (repeat' split at given) <;> cases given <;> rfl

theorem Value.unaryOperand {op : Opcode} {a v : Value} (given : unary op a = .ok v) :
    v.operand?.isSome := by
  unfold unary at given
  split at given <;> cases given <;> rfl

theorem resultGiven {op : Opcode} {operands : List Operand} {v : Value}
    (constant : v.operand?.isSome) : ∃ x, resultOperand? op operands (.ok v) = some x := by
  obtain ⟨x, constant⟩ := Option.isSome_iff_exists.mp constant
  cases v with
  | float y => exact ⟨_, rfl⟩
  | _ => exact ⟨x, constant⟩

theorem binaryFolds {op right left : Kept} {a b v : Value} (binary : op.opcode.isBinary)
    (free : op.origin ∉ targets) (free' : right.origin ∉ targets)
    (lefts : left.constant? = some a) (rights : right.constant? = some b)
    (given : Value.binary op.opcode a b = .ok v) :
    ∃ folded, foldBinary? targets op right left = some folded := by
  obtain ⟨x, result⟩ := @resultGiven op.opcode [left.instr.operand, right.instr.operand] v
    (Value.binaryOperand given)
  refine ⟨⟨.mk .push x op.instr.source, left.origin⟩, ?_⟩
  simp [foldBinary?, binary, free, free', lefts, rights, given, result]

theorem unaryFolds {op operand : Kept} {a v : Value} (unary : op.opcode.isUnary)
    (free : op.origin ∉ targets) (operands : operand.constant? = some a)
    (given : Value.unary op.opcode a = .ok v) :
    ∃ folded, foldUnary? targets op operand = some folded := by
  obtain ⟨x, result⟩ := @resultGiven op.opcode [operand.instr.operand] v (Value.unaryOperand given)
  refine ⟨⟨.mk .push x op.instr.source, operand.origin⟩, ?_⟩
  simp [foldUnary?, unary, free, operands, given, result]

/-! ### What is kept does not fold -/

def Unfolded (targets : List Nat) : List Kept → Prop
  | [] => True
  | k :: out => keep targets out k = k :: out ∧ Unfolded targets out

theorem keepPush {k : Kept} (out : List Kept) (push : k.opcode = .push) :
    keep targets out k = k :: out := by
  rcases keepCases targets out k with
    kept | ⟨right, left, rest, folded, -, folds, -⟩ | ⟨operand, rest, folded, -, folds, -⟩
  · exact kept
  · exact absurd push (operatorStays (.inl (foldedBinary folds).1)).2
  · exact absurd push (operatorStays (.inr (foldedUnary folds).1)).2

theorem unfoldedKeep {out : List Kept} {k : Kept} (below : Unfolded targets out) :
    Unfolded targets (keep targets out k) := by
  -- What something is folded to is a constant, with which nothing below it folds.
  rcases keepCases targets out k with
    kept | ⟨right, left, rest, folded, rfl, folds, kept⟩ | ⟨operand, rest, folded, rfl, folds, kept⟩
  · rw [kept]
    exact ⟨kept, below⟩
  · rw [kept]
    obtain ⟨-, -, -, _, _, _, _, -, -, -, -, rfl⟩ := foldedBinary folds
    exact ⟨keepPush rest rfl, below.2.2⟩
  · rw [kept]
    obtain ⟨-, -, _, _, _, -, -, -, rfl⟩ := foldedUnary folds
    exact ⟨keepPush rest rfl, below.2⟩

theorem unfoldedAll (rest : Code) {ip : Nat} {out : List Kept} (below : Unfolded targets out) :
    Unfolded targets (keepAll targets ip out rest).1.reverse := by
  induction rest generalizing ip out with
  | nil =>
    simp only [keepAll, List.reverse_reverse]
    exact below
  | cons i rest ih => exact ih (unfoldedKeep below)

theorem unfoldedSplit {later earlier : List Kept} {k : Kept}
    (unfolded : Unfolded targets (later ++ k :: earlier)) : keep targets earlier k = k :: earlier := by
  induction later with
  | nil => exact unfolded.1
  | cons next later ih => exact ih unfolded.2

theorem keptBinary {op right left : Kept} {rest : List Kept}
    (kept : keep targets (right :: left :: rest) op = op :: right :: left :: rest) :
    foldBinary? targets op right left = none := by
  cases folds : foldBinary? targets op right left with
  | none => rfl
  | some folded =>
    simp only [keep, folds] at kept
    have shorter := congrArg List.length kept
    simp only [List.length_cons] at shorter
    omega

theorem keptUnary {op operand : Kept} {rest : List Kept}
    (kept : keep targets (operand :: rest) op = op :: operand :: rest) :
    foldUnary? targets op operand = none := by
  cases folds : foldUnary? targets op operand with
  | none => rfl
  | some folded =>
    have shorter := congrArg List.length kept
    cases rest with
    | nil =>
      simp only [keep, folds, List.length_cons] at shorter
      omega
    | cons left rest =>
      simp only [keep, folds] at shorter
      split at shorter <;> simp only [List.length_cons] at shorter <;> omega

theorem keptUnfolded : Unfolded (jumpTargets code) (keptOf code).reverse := unfoldedAll code trivial

theorem keptBelow {p : Nat} {k : Kept} (found : (keptOf code)[p]? = some k) :
    ((keptOf code).take (p + 1)).reverse = k :: ((keptOf code).take p).reverse := by
  rw [List.take_add_one, found, List.reverse_append]
  rfl

theorem keptStays {p : Nat} {k : Kept} (found : (keptOf code)[p]? = some k) :
    keep (jumpTargets code) ((keptOf code).take p).reverse k =
      k :: ((keptOf code).take p).reverse := by
  have whole : (keptOf code).reverse =
      ((keptOf code).drop (p + 1)).reverse ++ k :: ((keptOf code).take p).reverse := by
    rw [← keptBelow found, ← List.reverse_append, List.take_append_drop]
  have unfolded := @keptUnfolded code
  rw [whole] at unfolded
  exact unfoldedSplit unfolded

/-! ### Jumps into what is kept -/

theorem blockJump {k : Kept} {width ip : Nat} {i : Instr} (block : StandsFor targets code k width)
    (low : k.origin ≤ ip) (high : ip < k.origin + width) (found : code[ip]? = some i)
    (jump : i.opcode.isJump) : k = ⟨i, ip⟩ := by
  -- A jump is part of no block that is folded.
  have constantOnly {k : Kept} {v : Value} (constant : k.constant? = some v)
      (same : k = ⟨i, ip⟩) : False := by
    have push : i.opcode = .push := by
      rw [← (constantPush constant).1, same]
      rfl
    rw [push] at jump
    cases jump
  have operatorOnly {op : Opcode} (operator : op.isBinary ∨ op.isUnary) (same : i.opcode = op) :
      False := (operatorStays operator).1 (same ▸ jump)
  induction block with
  | @single start j here =>
    obtain rfl : start = ip := by
      simp only at low high
      omega
    cases here.symm.trans found
    rfl
  | @binary left right op folded a b first second joined last here folds ih ih' =>
    obtain ⟨binary, -, -, _, _, _, _, lefts, rights, -, -, rfl⟩ := foldedBinary folds
    simp only at low high
    by_cases inFirst : ip < left.origin + a
    · exact (constantOnly lefts (ih low inFirst)).elim
    by_cases inSecond : ip < right.origin + b
    · exact (constantOnly rights (ih' (by omega) inSecond)).elim
    obtain rfl : op.origin = ip := by omega
    cases here.symm.trans found
    exact (operatorOnly (.inl binary) rfl).elim
  | @unary operand op folded a first last here folds ih =>
    obtain ⟨unary, -, _, _, _, operands, -, -, rfl⟩ := foldedUnary folds
    simp only at low high
    by_cases inside : ip < operand.origin + a
    · exact (constantOnly operands (ih low inside)).elim
    obtain rfl : op.origin = ip := by omega
    cases here.symm.trans found
    exact (operatorOnly (.inr unary) rfl).elim

theorem tilesJump {out : List Kept} {stop ip : Nat} {i : Instr} (covers : Tiles targets code out stop)
    (inside : ip < stop) (found : code[ip]? = some i) (jump : i.opcode.isJump) : ⟨i, ip⟩ ∈ out := by
  induction out generalizing stop with
  | nil =>
    cases covers
    exact (Nat.not_lt_zero ip inside).elim
  | cons k out ih =>
    obtain ⟨below, width, block, rfl⟩ := covers
    by_cases before : ip < k.origin
    · exact List.mem_cons_of_mem k (ih below before)
    · exact blockJump block (by omega) inside found jump ▸ List.mem_cons_self

theorem jumpKept {ip : Nat} {i : Instr} (found : code[ip]? = some i) (jump : i.opcode.isJump) :
    ∃ p : Nat, (keptOf code)[p]? = some ⟨i, ip⟩ := by
  have inside : ip < code.length := (List.getElem?_eq_some_iff.mp found).1
  have kept := tilesJump (@keptCovers code) inside found jump
  exact List.mem_iff_getElem?.mp (List.mem_reverse.mp kept)

theorem originSame {p q : Nat} (inside : p ≤ (keptOf code).length) (inside' : q ≤ (keptOf code).length)
    (same : originAt code p = originAt code q) : p = q := by
  rcases Nat.lt_trichotomy p q with less | equal | more
  · have gap := originGap (Nat.le_of_lt less) inside'
    omega
  · exact equal
  · have gap := originGap (Nat.le_of_lt more) inside
    omega

theorem targetOf {t : Nat} : t ∈ jumpTargets code ↔
    ∃ (ip : Nat) (i : Instr), code[ip]? = some i ∧ i.target? ip code.length = some t := by
  simp only [jumpTargets, List.mem_filterMap, Prod.exists, List.mem_zipIdx_iff_getElem?]
  exact exists_comm

theorem targetMoves {q : Nat} {k : Kept} (found : (keptOf code)[q]? = some k)
    (target : k.origin ∈ jumpTargets code) : q ∈ jumpTargets (foldConstants code) := by
  obtain ⟨ip, i, there, given⟩ := targetOf.mp target
  obtain ⟨jump, offset, operand, reach⟩ := targetJump given
  obtain ⟨p, kept⟩ := jumpKept there jump
  have inside : p < (keptOf code).length := (List.getElem?_eq_some_iff.mp kept).1
  obtain ⟨q', position, bound, start⟩ := targetLands target
  obtain rfl : q' = q := by
    have inside' : q < (keptOf code).length := (List.getElem?_eq_some_iff.mp found).1
    exact originSame bound (Nat.le_of_lt inside') (start.trans (blockAt found).1)
  have next : originAt code (p + 1) = ip + 1 := by
    obtain ⟨origin, width, block, next⟩ := blockAt kept
    rcases standsForCases block with ⟨rfl, -⟩ | ⟨v, constant⟩
    · rw [next, ← origin]
    · exact (constantStays (i := i) constant jump).elim
  refine targetOf.mpr ⟨p, moved code p ⟨i, ip⟩, ?_, ?_⟩
  · rw [foldedAt, kept]
    rfl
  · rw [movedJump given position, foldedLength]
    exact (if_pos jump).trans (movedTarget inside bound next start reach)

/-! ### Folded code has no windows -/

theorem foldedKept {p : Nat} {i : Instr} (found : (foldConstants code)[p]? = some i)
    (other : ¬ i.opcode.isJump) : ∃ k, (keptOf code)[p]? = some k ∧ k.instr = i := by
  rw [foldedAt] at found
  obtain ⟨k, kept, rfl⟩ := Option.map_eq_some_iff.mp found
  rw [movedOpcode] at other
  exact ⟨k, kept, (movedOther other).symm⟩

theorem foldedWindowless (ip : Nat) : ¬ Window (foldConstants code) ip := by
  intro window
  cases window with
  | binary first second last lefts rights operator given free free' =>
    obtain ⟨left, keptLeft, rfl⟩ := foldedKept first (constantStays lefts)
    obtain ⟨right, keptRight, rfl⟩ := foldedKept second (constantStays rights)
    obtain ⟨op, keptOp, rfl⟩ := foldedKept last (operatorStays (.inl operator)).1
    have stays := keptStays keptOp
    rw [keptBelow keptRight, keptBelow keptLeft] at stays
    obtain ⟨folded, folds⟩ := binaryFolds operator (fun target => free' (targetMoves keptOp target))
      (fun target => free (targetMoves keptRight target)) lefts rights given
    cases (keptBinary stays).symm.trans folds
  | unary first last operands operator given free =>
    obtain ⟨operand, keptOperand, rfl⟩ := foldedKept first (constantStays operands)
    obtain ⟨op, keptOp, rfl⟩ := foldedKept last (operatorStays (.inr operator)).1
    have stays := keptStays keptOp
    rw [keptBelow keptOperand] at stays
    obtain ⟨folded, folds⟩ := unaryFolds operator (fun target => free (targetMoves keptOp target))
      operands given
    cases (keptUnary stays).symm.trans folds

end Quill
