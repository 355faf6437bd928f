import Quill.Proofs.Folding.Windows

/-! Folding comes to its end in one pass. Code without windows is folded to itself, and optimized
code has none, at any depth of the code in its operands. -/
namespace Quill

/-! ### Code without windows -/

def unmoved (code : Code) : List Kept := code.zipIdx.map fun (i, ip) => ⟨i, ip⟩

theorem unmovedAt (code : Code) (ip : Nat) : (unmoved code)[ip]? = code[ip]?.map (⟨·, ip⟩) := by
  simp only [unmoved, List.getElem?_map, List.getElem?_zipIdx, Option.map_map, Nat.zero_add]
  rfl

theorem unmovedLength (code : Code) : (unmoved code).length = code.length := by
  rw [unmoved, List.length_map, List.length_zipIdx]

theorem unmovedNext (before : Code) (i : Instr) :
    (unmoved (before ++ [i])).reverse = ⟨i, before.length⟩ :: (unmoved before).reverse := by
  simp only [unmoved, List.zipIdx_append, List.map_append, List.reverse_append, Nat.zero_add]
  rfl

theorem unmovedBelow {before : Code} {n : Nat} {k : Kept}
    (top : (unmoved before).reverse[n]? = some k) :
    ∃ ip i, ip + n + 1 = before.length ∧ before[ip]? = some i ∧ k = ⟨i, ip⟩ := by
  have inside : n < before.length := by
    have inside := (List.getElem?_eq_some_iff.mp top).1
    rwa [List.length_reverse, unmovedLength] at inside
  rw [List.getElem?_reverse (by rwa [unmovedLength]), unmovedLength, unmovedAt] at top
  obtain ⟨i, found, rfl⟩ := Option.map_eq_some_iff.mp top
  exact ⟨_, i, by omega, found, rfl⟩

theorem windowlessKeep {before rest : Code} {i : Instr}
    (windowless : ∀ ip, ¬ Window (before ++ i :: rest) ip) :
    keep (jumpTargets (before ++ i :: rest)) (unmoved before).reverse ⟨i, before.length⟩ =
      (unmoved (before ++ [i])).reverse := by
  have here : (before ++ i :: rest)[before.length]? = some i := by
    rw [List.getElem?_append_right (Nat.le_refl _), Nat.sub_self]
    rfl
  have earlier {ip : Nat} {j : Instr} (found : before[ip]? = some j) :
      (before ++ i :: rest)[ip]? = some j := by
    rw [List.getElem?_append_left (List.getElem?_eq_some_iff.mp found).1, found]
  rw [unmovedNext]
  rcases keepCases (jumpTargets (before ++ i :: rest)) (unmoved before).reverse
      ⟨i, before.length⟩ with
    kept | ⟨right, left, out, folded, below, folds, -⟩ | ⟨operand, out, folded, below, folds, -⟩
  · exact kept
  · obtain ⟨q, r, height, second, rfl⟩ := unmovedBelow (n := 0) (k := right) (by rw [below]; rfl)
    obtain ⟨p, l, height', first, rfl⟩ := unmovedBelow (n := 1) (k := left) (by rw [below]; rfl)
    obtain rfl : q = p + 1 := by omega
    obtain ⟨binary, free, free', a, b, v, -, lefts, rights, given, -, -⟩ := foldedBinary folds
    rw [← height] at here free
    exact (windowless p (.binary (earlier first) (earlier second) here lefts rights binary given
      free' free)).elim
  · obtain ⟨p, l, height, first, rfl⟩ := unmovedBelow (n := 0) (k := operand) (by rw [below]; rfl)
    obtain ⟨unary, free, a, v, -, operands, given, -, -⟩ := foldedUnary folds
    rw [← height] at here free
    exact (windowless p (.unary (earlier first) here operands unary given free)).elim

theorem windowlessKeepAll {rest code : Code} (before : Code) (whole : code = before ++ rest)
    (windowless : ∀ ip, ¬ Window code ip) :
    keepAll (jumpTargets code) before.length (unmoved before).reverse rest =
      (unmoved code, List.range' before.length (rest.length + 1)) := by
  induction rest generalizing before with
  | nil =>
    rw [keepAll, List.reverse_reverse, List.length_reverse, unmovedLength, whole, List.append_nil]
    rfl
  | cons i rest ih =>
    have next := ih (before ++ [i]) (by rw [whole, List.append_assoc]; rfl)
    rw [List.length_append] at next
    subst whole
    rw [keepAll, windowlessKeep windowless]
    simp only [List.length_singleton] at next
    rw [next, List.length_reverse, unmovedLength]
    rfl

theorem windowlessStays {code : Code} (windowless : ∀ ip, ¬ Window code ip) :
    foldConstants code = code := by
  have kept : keepAll (jumpTargets code) 0 [] code = (unmoved code, List.range' 0 (code.length + 1)) :=
    windowlessKeepAll [] rfl windowless
  apply List.ext_getElem?
  intro p
  rw [foldedAt, keptOf, kept, unmovedAt]
  cases found : code[p]? with
  | none => rfl
  | some i =>
    refine congrArg some ?_
    change moved code p ⟨i, p⟩ = i
    cases target : i.target? p code.length with
    | none => exact movedStays target
    | some t =>
      obtain ⟨-, offset, operand, reach⟩ := targetJump target
      obtain ⟨inside, distance⟩ := jumpTargetBound reach
      have position : (keepAll (jumpTargets code) 0 [] code).2[t]? = some t := by
        rw [kept]
        simp only
        rw [List.getElem?_range' (by omega)]
        simp
      rw [movedJump target position]
      obtain ⟨op, x, source⟩ := i
      cases x with
      | int n =>
        cases operand
        have same : (t : Int) - (p + 1) = offset.toInt := by omega
        rw [same, Int32.ofInt_toInt]
        rfl
      | _ => cases operand

/-! ### Code in operands -/

inductive Operand.Holds (inner : Code) : Operand → Prop where
  | here : Operand.Holds inner (.code inner)
  | body {code : Code} {i : Instr} (inside : i ∈ code) (holds : Operand.Holds inner i.operand) :
      Operand.Holds inner (.code code)
  | item {items : List Operand} {x : Operand} (inside : x ∈ items)
      (holds : Operand.Holds inner x) : Operand.Holds inner (.list items)
  | first {a b : Operand} (holds : Operand.Holds inner a) : Operand.Holds inner (.tuple a b)
  | second {a b : Operand} (holds : Operand.Holds inner b) : Operand.Holds inner (.tuple a b)

def Windowless (code : Code) : Prop :=
  ∀ inner, (Operand.code code).Holds inner → ∀ ip, ¬ Window inner ip

structure Operand.Settled (x : Operand) : Prop where
  stays : x.optimize = x
  windowless : ∀ inner, x.Holds inner → ∀ ip, ¬ Window inner ip

variable {code : Code}

theorem flatSettled {x : Operand} {v : Value} (constant : Value.ofOperand? x = some v) :
    x.Settled := by
  cases x with
  | code _ => cases constant
  | list _ => cases constant
  | tuple _ _ => cases constant
  | _ => exact ⟨rfl, fun inner holds => nomatch holds⟩

theorem listSettled {items : List Operand} (each : ∀ x ∈ items, x.Settled) :
    (Operand.list items).Settled where
  stays := by
    rw [Operand.optimize]
    congr 1
    induction items with
    | nil => rfl
    | cons x rest ih =>
      obtain ⟨first, others⟩ := List.forall_mem_cons.mp each
      rw [optimizeOperands, first.stays, ih others]
  windowless := by
    rintro inner (_ | _ | ⟨inside, holds⟩)
    exact (each _ inside).windowless inner holds

theorem tupleSettled {a b : Operand} (first : a.Settled) (second : b.Settled) :
    (Operand.tuple a b).Settled where
  stays := by rw [Operand.optimize, first.stays, second.stays]
  windowless := by
    intro inner holds
    cases holds with
    | first holds => exact first.windowless inner holds
    | second holds => exact second.windowless inner holds

theorem instrsStay (each : ∀ i ∈ code, i.operand.Settled) : optimizeInstrs code = code := by
  induction code with
  | nil => rfl
  | cons i rest ih =>
    obtain ⟨first, others⟩ := List.forall_mem_cons.mp each
    obtain ⟨op, x, source⟩ := i
    have stays : x.optimize = x := first.stays
    rw [optimizeInstrs, Instr.optimize, stays, ih others]

theorem movedOperand (p : Nat) (k : Kept) :
    (moved code p k).operand = k.instr.operand ∨ ∃ n, (moved code p k).operand = .int n := by
  unfold moved relocate
  simp only
  split
  · exact .inr ⟨_, rfl⟩
  · exact .inl rfl

theorem foldedSettled (each : ∀ i ∈ code, i.operand.Settled) :
    ∀ i ∈ foldConstants code, i.operand.Settled := by
  intro i inside
  obtain ⟨p, found⟩ := List.mem_iff_getElem?.mp inside
  rw [foldedAt] at found
  obtain ⟨k, kept, rfl⟩ := Option.map_eq_some_iff.mp found
  rcases movedOperand p k with same | ⟨n, same⟩
  · rw [same]
    obtain ⟨-, width, block, -⟩ := blockAt kept
    rcases standsForCases block with ⟨-, there⟩ | ⟨v, constant⟩
    · exact each _ (List.mem_of_getElem? there)
    · exact flatSettled (constantPush constant).2
  · rw [same]
    exact flatSettled (x := .int n) rfl

theorem codeSettled (each : ∀ i ∈ code, i.operand.Settled) :
    (Operand.code (foldConstants code)).Settled where
  stays := by
    rw [Operand.optimize, instrsStay (foldedSettled each), windowlessStays foldedWindowless]
  windowless := by
    intro inner holds
    cases holds with
    | here => exact foldedWindowless
    | body inside holds => exact (foldedSettled each _ inside).windowless inner holds

mutual

theorem operandSettles : (x : Operand) → x.optimize.Settled
  | .null => flatSettled rfl
  | .bool _ => flatSettled rfl
  | .int _ => flatSettled rfl
  | .long _ => flatSettled rfl
  | .double _ => flatSettled rfl
  | .str _ => flatSettled rfl
  | .char _ => flatSettled rfl
  | .code body => codeSettled (instrsSettle body)
  | .list items => listSettled (operandsSettle items)
  | .tuple a b => tupleSettled (operandSettles a) (operandSettles b)

theorem operandsSettle : (items : List Operand) → ∀ x ∈ optimizeOperands items, x.Settled
  | [] => nofun
  | x :: rest => List.forall_mem_cons.mpr ⟨operandSettles x, operandsSettle rest⟩

theorem instrsSettle : (code : List Instr) → ∀ i ∈ optimizeInstrs code, i.operand.Settled
  | [] => nofun
  | .mk _ operand _ :: rest => List.forall_mem_cons.mpr ⟨operandSettles operand, instrsSettle rest⟩

end

/-- Optimizing a second time changes nothing, and there is nothing left to fold. -/
theorem optimizedSettled (code : Code) :
    optimize (optimize code) = optimize code ∧ Windowless (optimize code) := by
  have settled : (Operand.code (optimize code)).Settled := codeSettled (instrsSettle code)
  exact ⟨Operand.code.inj settled.stays, settled.windowless⟩

end Quill
