import Quill.Proofs.Folding.Tiles
import Mathlib.Algebra.Group.Nat.Defs
import Mathlib.Algebra.Group.Int.Defs

/-! Where folding moves instructions. Folded code has an instruction for each block that is kept;
positions in it grow more slowly than those they come from, so moved jumps never reach farther. -/
namespace Quill

theorem standsForWidth {targets : List Nat} {code : Code} {k : Kept} {width : Nat}
    (block : StandsFor targets code k width) : 0 < width := by
  cases block <;> omega

theorem tilesSplit {targets : List Nat} {code : Code} {later earlier : List Kept} {stop : Nat}
    (covers : Tiles targets code (later ++ earlier) stop) :
    Tiles targets code earlier (begins later stop) := by
  induction later generalizing stop with
  | nil => exact covers
  | cons k later ih =>
    rw [beginsCons]
    exact ih covers.1

def keptOf (code : Code) : List Kept := (keepAll (jumpTargets code) 0 [] code).1

def originAt (code : Code) (p : Nat) : Nat := ((keptOf code)[p]?.map Kept.origin).getD code.length

variable {code : Code}

theorem keptCovers : Tiles (jumpTargets code) code (keptOf code).reverse code.length :=
  (@keepAllCovers (jumpTargets code) code code 0 [] rfl (Nat.zero_le _) rfl).1

theorem originBegins {later earlier : List Kept} (split : (keptOf code).reverse = later ++ earlier) :
    originAt code earlier.length = begins later code.length := by
  have kept : keptOf code = earlier.reverse ++ later.reverse := by
    rw [← List.reverse_append, ← split, List.reverse_reverse]
  unfold originAt begins
  rw [kept, List.getElem?_append_right (by simp), List.length_reverse, Nat.sub_self,
    ← List.head?_eq_getElem?, List.head?_reverse]

theorem keptSplit {p : Nat} {k : Kept} (found : (keptOf code)[p]? = some k) :
    ∃ later earlier, (keptOf code).reverse = later ++ k :: earlier ∧ earlier.length = p := by
  obtain ⟨bound, rfl⟩ := List.getElem?_eq_some_iff.mp found
  refine ⟨((keptOf code).drop (p + 1)).reverse, ((keptOf code).take p).reverse, ?_, ?_⟩
  · conv_lhs => rw [← List.take_append_drop p (keptOf code), List.drop_eq_getElem_cons bound]
    simp
  · simp
    omega

theorem blockAt {p : Nat} {k : Kept} (found : (keptOf code)[p]? = some k) :
    k.origin = originAt code p ∧ ∃ width, StandsFor (jumpTargets code) code k width ∧
      originAt code (p + 1) = originAt code p + width := by
  have origin : k.origin = originAt code p := by
    unfold originAt
    rw [found]
    rfl
  obtain ⟨later, earlier, split, height⟩ := keptSplit found
  have covers := @keptCovers code
  rw [split] at covers
  obtain ⟨-, width, block, stop⟩ := tilesSplit covers
  refine ⟨origin, width, block, ?_⟩
  rw [← origin, ← stop, ← originBegins split, List.length_cons, height]

theorem originZero : originAt code 0 = 0 := by
  cases kept : (keptOf code).reverse with
  | nil =>
    have covers := @keptCovers code
    rw [kept] at covers
    have none : (keptOf code)[0]? = none := by
      rw [List.reverse_eq_nil_iff.mp kept]
      rfl
    unfold originAt
    rw [none]
    exact covers
  | cons k out =>
    have covers := @keptCovers code
    rw [← List.append_nil (keptOf code).reverse] at covers
    have first := tilesSplit covers
    rw [← originBegins (List.append_nil _).symm] at first
    exact first

theorem originEnd {p : Nat} (behind : (keptOf code)[p]? = none) : originAt code p = code.length := by
  unfold originAt
  rw [behind]
  rfl

theorem originStep {p : Nat} (inside : p < (keptOf code).length) :
    originAt code p < originAt code (p + 1) := by
  obtain ⟨-, width, block, next⟩ := blockAt (List.getElem?_eq_getElem inside)
  have wide := standsForWidth block
  omega

theorem originGap {p q : Nat} (order : p ≤ q) (inside : q ≤ (keptOf code).length) :
    originAt code p + (q - p) ≤ originAt code q := by
  induction q with
  | zero =>
    have first : p = 0 := by omega
    subst first
    omega
  | succ q ih =>
    by_cases same : p = q + 1
    · subst same
      omega
    · have before := ih (by omega) (by omega)
      have step := @originStep code q (by omega)
      omega

theorem originLast : originAt code (keptOf code).length = code.length :=
  originEnd (List.getElem?_eq_none (Nat.le_refl _))

theorem jumpTargetBound {ip length t : Nat} {offset : Int32}
    (found : jumpTarget? ip offset length = some t) : t ≤ length ∧ (t : Int) = ip + 1 + offset.toInt := by
  unfold jumpTarget? at found
  simp only at found
  split at found
  · cases found
    omega
  · cases found

theorem jumpReaches {ip t length : Nat} {offset : Int} (distance : (t : Int) = ip + 1 + offset)
    (inside : t ≤ length) (low : -2 ^ 31 ≤ offset) (high : offset < 2 ^ 31) :
    jumpTarget? ip (Int32.ofInt offset) length = some t := by
  have fits : (Int32.ofInt offset).toInt = offset := Int32.toInt_ofInt_of_le low (by omega)
  unfold jumpTarget?
  simp only [fits]
  rw [if_pos (by omega)]
  congr 1
  omega

theorem targetJump {i : Instr} {ip length t : Nat} (given : i.target? ip length = some t) :
    i.opcode.isJump ∧ ∃ offset, i.operand.offset? = some offset ∧
      jumpTarget? ip offset length = some t := by
  unfold Instr.target? at given
  by_cases jump : i.opcode.isJump
  · rw [if_pos jump] at given
    obtain ⟨offset, operand, found⟩ := Option.bind_eq_some_iff.mp given
    exact ⟨jump, offset, operand, found⟩
  · rw [if_neg jump] at given
    cases given

theorem targetBound {t : Nat} (target : t ∈ jumpTargets code) : t ≤ code.length := by
  unfold jumpTargets at target
  obtain ⟨⟨i, ip⟩, -, given⟩ := List.mem_filterMap.mp target
  obtain ⟨-, offset, -, found⟩ := targetJump given
  exact (jumpTargetBound found).1

theorem targetLands {t : Nat} (target : t ∈ jumpTargets code) :
    ∃ p, (keepAll (jumpTargets code) 0 [] code).2[t]? = some p ∧ p ≤ (keptOf code).length ∧
      originAt code p = t := by
  obtain ⟨-, -, positions⟩ := @keepAllCovers (jumpTargets code) code code 0 [] rfl
    (Nat.zero_le _) rfl
  obtain ⟨p, position, later, earlier, split, height, start⟩ :=
    positions t target (Nat.zero_le _) (targetBound target)
  refine ⟨p, position, ?_, ?_⟩
  · have total := congrArg List.length split
    rw [List.length_reverse, List.length_append] at total
    change (keptOf code).length = _ at total
    omega
  · rw [← height, originBegins split, start]

theorem foldedLength : (foldConstants code).length = (keptOf code).length := by
  simp [foldConstants, keptOf]

def moved (code : Code) (p : Nat) (k : Kept) : Instr :=
  relocate code.length (keepAll (jumpTargets code) 0 [] code).2 p k

theorem foldedAt (p : Nat) : (foldConstants code)[p]? = (keptOf code)[p]?.map (moved code p) := by
  simp only [foldConstants, List.getElem?_map, List.getElem?_zipIdx, keptOf, Option.map_map]
  simp [Function.comp_def]
  rfl

end Quill
