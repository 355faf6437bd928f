import Quill.Proofs.Codec.RoundTrip
import Quill.Proofs.Folding.Blocks

/-! How deep the operands of code nest, from its parts. Where the operands of operators do not nest,
as in code that is generated, folding leaves the depth as it is. -/
namespace Quill

variable {code : Code}

theorem nestingAppend (first second : Code) :
    instrsNesting (first ++ second) = max (instrsNesting first) (instrsNesting second) := by
  induction first with
  | nil => exact (Nat.zero_max _).symm
  | cons i rest ih => rw [List.cons_append, instrsNesting, instrsNesting, ih, Nat.max_assoc]

theorem nestingReverse (code : Code) : instrsNesting code.reverse = instrsNesting code := by
  induction code with
  | nil => rfl
  | cons i rest ih =>
    rw [List.reverse_cons, nestingAppend, ih, instrsNesting, instrsNesting, instrsNesting,
      Nat.max_zero, Nat.max_comm]

theorem nestingSame {first second : Code}
    (same : first.map Instr.nesting = second.map Instr.nesting) :
    instrsNesting first = instrsNesting second := by
  induction first generalizing second with
  | nil => rw [List.map_eq_nil_iff.mp same.symm]
  | cons i rest ih =>
    cases second with
    | nil => cases same
    | cons j more =>
      obtain ⟨head, tail⟩ := List.cons.inj same
      rw [instrsNesting, instrsNesting, head, ih tail]

theorem instrNesting (i : Instr) : i.nesting = i.operand.nesting := by
  cases i
  rfl

theorem constantFlat {k : Kept} {v : Value} (constant : k.constant? = some v) :
    k.instr.nesting = 0 := by
  have found := (constantPush constant).2
  rw [instrNesting]
  cases given : k.instr.operand <;> rw [given] at found <;> first | rfl | cases found

theorem targetFlat {i : Instr} {ip length t : Nat} (target : i.target? ip length = some t) :
    i.nesting = 0 := by
  unfold Instr.target? at target
  split at target
  · obtain ⟨offset, given, -⟩ := Option.bind_eq_some_iff.mp target
    rw [instrNesting]
    cases operand : i.operand <;> rw [operand] at given <;> first | rfl | cases given
  · cases target

theorem movedNesting {p : Nat} {k : Kept} : (moved code p k).nesting = k.instr.nesting := by
  cases target : k.instr.target? k.origin code.length with
  | none => rw [movedStays target]
  | some t =>
    unfold moved relocate
    simp only
    split
    · rw [targetFlat target]
      rfl
    · rfl

def keptNesting (out : List Kept) : Nat := instrsNesting (out.map Kept.instr)

def Instr.isOperator (i : Instr) : Bool := i.opcode.isBinary || i.opcode.isUnary

theorem keepNesting (targets : List Nat) (out : List Kept) {k : Kept}
    (flat : k.instr.isOperator → k.instr.nesting = 0) :
    keptNesting (keep targets out k) = max (keptNesting out) k.instr.nesting := by
  rcases keepCases targets out k with
    kept | ⟨right, left, rest, folded, rfl, folds, kept⟩ | ⟨operand, rest, folded, rfl, folds, kept⟩
  · rw [kept]
    exact Nat.max_comm _ _
  · obtain ⟨binary, -, -, _, _, v, x, first, second, -, constant, rfl⟩ := foldedBinary folds
    have operator := flat (Bool.or_eq_true_iff.mpr (.inl binary))
    have result : Kept.constant? ⟨.mk .push x k.instr.source, left.origin⟩ = some v := constant
    simp only [kept, keptNesting, List.map_cons, instrsNesting, constantFlat first,
      constantFlat second, operator]
    rw [constantFlat result, Nat.zero_max, Nat.zero_max, Nat.max_zero]
  · obtain ⟨unary, -, _, v, x, only, -, constant, rfl⟩ := foldedUnary folds
    have operator := flat (Bool.or_eq_true_iff.mpr (.inr unary))
    have result : Kept.constant? ⟨.mk .push x k.instr.source, operand.origin⟩ = some v := constant
    simp only [kept, keptNesting, List.map_cons, instrsNesting, constantFlat only, operator]
    rw [constantFlat result, Nat.zero_max, Nat.max_zero]

theorem keepAllNesting (targets : List Nat) (rest : Code) (ip : Nat) (out : List Kept)
    (flat : ∀ i ∈ rest, i.isOperator → i.nesting = 0) :
    keptNesting (keepAll targets ip out rest).1 = max (keptNesting out) (instrsNesting rest) := by
  induction rest generalizing ip out with
  | nil =>
    simp only [keepAll, keptNesting, List.map_reverse, nestingReverse, instrsNesting, Nat.max_zero]
  | cons i rest ih =>
    obtain ⟨head, tail⟩ := List.forall_mem_cons.mp flat
    simp only [keepAll, instrsNesting]
    rw [ih (ip + 1) (keep targets out ⟨i, ip⟩) tail, keepNesting targets out head, Nat.max_assoc]

theorem foldedNesting (flat : ∀ i ∈ code, i.isOperator → i.nesting = 0) :
    instrsNesting (foldConstants code) = instrsNesting code := by
  have kept := keepAllNesting (jumpTargets code) code 0 [] flat
  rw [show keptNesting [] = 0 from rfl, Nat.zero_max] at kept
  rw [← kept]
  refine nestingSame (List.ext_getElem? fun p => ?_)
  change ((foldConstants code).map Instr.nesting)[p]? =
    (((keptOf code).map Kept.instr).map Instr.nesting)[p]?
  rw [List.getElem?_map, List.getElem?_map, List.getElem?_map, foldedAt, Option.map_map,
    Option.map_map]
  congr 1
  exact funext fun k => movedNesting

theorem flatOptimized {x : Operand} (flat : x.nesting = 0) : x.optimize.nesting = 0 := by
  cases x <;> first | rfl | cases flat

structure Nests (n : Nat) (code : Code) : Prop where
  plain : instrsNesting code = n
  parts : instrsNesting (optimizeInstrs code) = n
  flat : ∀ i ∈ code, i.isOperator → i.nesting = 0

structure Operand.Nests (n : Nat) (x : Operand) : Prop where
  plain : x.nesting = n
  folded : x.optimize.nesting = n

structure OperandsNest (n : Nat) (items : List Operand) : Prop where
  plain : operandsNesting items = n
  folded : operandsNesting (optimizeOperands items) = n

theorem flatEach (flat : instrsNesting code = 0) : ∀ i ∈ code, i.nesting = 0 := by
  induction code with
  | nil => exact List.forall_mem_nil _
  | cons i rest ih =>
    obtain ⟨head, tail⟩ := Nat.max_eq_zero_iff.mp flat
    exact List.forall_mem_cons.mpr ⟨head, ih tail⟩

theorem partsFlat (flat : ∀ i ∈ code, i.nesting = 0) : instrsNesting (optimizeInstrs code) = 0 := by
  induction code with
  | nil => rfl
  | cons i rest ih =>
    obtain ⟨head, tail⟩ := List.forall_mem_cons.mp flat
    rw [optimizeInstrs, instrsNesting, ih tail, instrNesting, optimizeOperand,
      flatOptimized (instrNesting i ▸ head)]
    rfl

theorem optimizeAppend (first second : Code) :
    optimizeInstrs (first ++ second) = optimizeInstrs first ++ optimizeInstrs second := by
  induction first with
  | nil => rfl
  | cons i rest ih => rw [List.cons_append, optimizeInstrs, optimizeInstrs, ih, List.cons_append]

namespace Nests

variable {n k : Nat} {more : Code}

theorem ofFlat (flat : instrsNesting code = 0) : Nests 0 code :=
  ⟨flat, partsFlat (flatEach flat), fun i inside _ => flatEach flat i inside⟩

theorem append (first : Nests n code) (second : Nests k more) : Nests (max n k) (code ++ more) where
  plain := by rw [nestingAppend, first.plain, second.plain]
  parts := by rw [optimizeAppend, nestingAppend, first.parts, second.parts]
  flat := List.forall_mem_append.mpr ⟨first.flat, second.flat⟩

theorem before (nests : Nests n code) (flat : instrsNesting more = 0) : Nests n (code ++ more) := by
  have both := nests.append (ofFlat flat)
  rwa [Nat.max_zero] at both

theorem cons {i : Instr} (flat : i.nesting = 0) (nests : Nests n code) : Nests n (i :: code) := by
  have first : Nests 0 [i] := ofFlat (Nat.max_eq_zero_iff.mpr ⟨flat, rfl⟩)
  have both := first.append nests
  rwa [Nat.zero_max] at both

theorem one {op : Opcode} {x : Operand} (source : Option Nat) (nests : x.Nests n)
    (other : (op.isBinary || op.isUnary) = false) : Nests n [.mk op x source] where
  plain := by
    rw [instrsNesting, instrsNesting, Nat.max_zero]
    exact nests.plain
  parts := by
    rw [optimizeInstrs, optimizeInstrs, instrsNesting, instrsNesting, Nat.max_zero]
    exact nests.folded
  flat := by
    refine List.forall_mem_singleton.mpr fun operator => ?_
    cases other.symm.trans operator

theorem folded (nests : Nests n code) : instrsNesting (optimize code) = n := by
  rw [optimize, foldedNesting, nests.parts]
  intro i inside operator
  obtain ⟨ip, found⟩ := List.getElem?_of_mem inside
  obtain ⟨j, here, rfl⟩ := instrOfOptimized found
  have flat := nests.flat j (List.mem_of_getElem? here)
  rw [Instr.isOperator, optimizeOpcode] at operator
  rw [instrNesting, optimizeOperand]
  exact flatOptimized (instrNesting j ▸ flat operator)

end Nests

section
variable {n k : Nat} {x y : Operand} {items : List Operand}

theorem Nests.block (nests : Nests n code) : Operand.Nests (n + 1) (.code code) :=
  ⟨congrArg (· + 1) nests.plain, congrArg (· + 1) nests.folded⟩

theorem OperandsNest.nil : OperandsNest 0 [] := ⟨rfl, rfl⟩

theorem OperandsNest.cons (head : x.Nests n) (tail : OperandsNest k items) :
    OperandsNest (max n k) (x :: items) where
  plain := by rw [operandsNesting, head.plain, tail.plain]
  folded := by rw [optimizeOperands, operandsNesting, head.folded, tail.folded]

theorem OperandsNest.list (nests : OperandsNest n items) : Operand.Nests (n + 1) (.list items) :=
  ⟨congrArg (· + 1) nests.plain, congrArg (· + 1) nests.folded⟩

theorem Operand.Nests.tuple (first : x.Nests n) (second : y.Nests k) :
    Operand.Nests (max n k + 1) (.tuple x y) where
  plain := by rw [Operand.nesting, first.plain, second.plain]
  folded := by rw [Operand.optimize, Operand.nesting, first.folded, second.folded]

end

end Quill
