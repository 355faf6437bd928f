import Quill.Code.Generate
import Quill.Proofs.Folding.Layout
import Quill.Proofs.Simulation.Shapes
import Mathlib.Algebra.Group.Nat.Defs

/-! Facts that flow through code. At each point of a piece of code something is known, whichever way
the run got there; pieces are put together where what is known behind one is what the next begins
with. Jumps of a piece stay in it, and so reach the same instructions wherever it is put. -/
namespace Quill

structure Flow (σ : Type) where
  -- From before an instruction to behind it.
  effect : Instr → σ → σ → Prop
  -- From before a jump to where it leads, taken or not.
  jumps : Instr → σ → σ → Prop
  -- Where the run may be ended.
  exits : σ → Prop

namespace Flow

variable {σ : Type}

inductive Fits (F : Flow σ) (length : Nat) (points : Nat → σ) (ip : Nat) (i : Instr) : Prop where
  | straight (effect : F.effect i (points ip) (points (ip + 1)))
  | jump {offset : Int32} (target : Nat) (jumps : F.jumps i (points ip) (points target))
      (given : i.operand.offset? = some offset)
      (found : jumpTarget? ip offset length = some target)
      (next : i.opcode ≠ .jmp → points (ip + 1) = points target)
  | exit (op : i.opcode = .exit) (exits : F.exits (points ip))

def Covers (F : Flow σ) (length : Nat) (points : Nat → σ) (start : Nat) (part : Code) : Prop :=
  ∀ ip (i : Instr), part[ip]? = some i → F.Fits length points (start + ip) i

def Piece (F : Flow σ) (code : Code) (p q : σ) : Prop :=
  ∃ points : Nat → σ, points 0 = p ∧ points code.length = q ∧ F.Covers code.length points 0 code

def Stands (F : Flow σ) (code : Code) (ip : Nat) (p last : σ) : Prop :=
  ∃ points : Nat → σ, points ip = p ∧ points code.length = last ∧ ip ≤ code.length ∧
    F.Covers code.length points 0 code

inductive Follows (F : Flow σ) (code : Code) (ip : Nat) (i : Instr) (p last : σ) : Prop where
  | straight (q : σ) (effect : F.effect i p q) (next : F.Stands code (ip + 1) q last)
  | jump (q : σ) {offset : Int32} (target : Nat) (jumps : F.jumps i p q)
      (given : i.operand.offset? = some offset)
      (found : jumpTarget? ip offset code.length = some target)
      (there : F.Stands code target q last)
      (next : i.opcode ≠ .jmp → F.Stands code (ip + 1) q last)
  | exit (op : i.opcode = .exit) (exits : F.exits p)

variable {F : Flow σ} {length start ip : Nat} {points points' : Nat → σ} {part rest : Code}
  {i : Instr}

theorem Fits.moved {before length' : Nat} (fits : F.Fits length points ip i) (inside : ip < length)
    (room : before + length ≤ length') (same : ∀ j ≤ length, points' (before + j) = points j) :
    F.Fits length' points' (before + ip) i := by
  have here := same ip (Nat.le_of_lt inside)
  have next := same (ip + 1) inside
  rw [← Nat.add_assoc] at next
  cases fits with
  | straight effect =>
    refine .straight ?_
    rw [here, next]
    exact effect
  | jump target jumps given found stays =>
    obtain ⟨bound, distance⟩ := jumpTargetBound found
    refine .jump (before + target) ?_ given ?_ ?_
    · rw [here, same target bound]
      exact jumps
    · unfold jumpTarget?
      simp only
      rw [if_pos (by omega)]
      congr 1
      omega
    · rw [next, same target bound]
      exact stays
  | exit op exits => exact .exit op (here ▸ exits)

theorem Covers.nil : F.Covers length points start [] := fun _ _ found => nomatch found

theorem Covers.cons (first : F.Fits length points start i)
    (more : F.Covers length points (start + 1) rest) : F.Covers length points start (i :: rest) := by
  intro ip j found
  cases ip with
  | zero =>
    cases found
    exact first
  | succ ip =>
    have fits := more ip j found
    rwa [Nat.add_assoc, Nat.add_comm 1] at fits

theorem Covers.append (first : F.Covers length points start part)
    (more : F.Covers length points (start + part.length) rest) :
    F.Covers length points start (part ++ rest) := by
  intro ip j found
  by_cases low : ip < part.length
  · rw [List.getElem?_append_left low] at found
    exact first ip j found
  · obtain ⟨k, rfl⟩ := Nat.exists_eq_add_of_le (Nat.not_lt.mp low)
    rw [List.getElem?_append_right (Nat.le_add_right _ _), Nat.add_sub_cancel_left] at found
    rw [← Nat.add_assoc]
    exact more k j found

theorem Covers.moved {length' : Nat} (covers : F.Covers part.length points 0 part)
    (room : start + part.length ≤ length')
    (same : ∀ j ≤ part.length, points' (start + j) = points j) :
    F.Covers length' points' start part := by
  intro ip j found
  have fits := covers ip j found
  rw [Nat.zero_add] at fits
  exact fits.moved (List.getElem?_eq_some_iff.mp found).1 room same

theorem Covers.fits (covers : F.Covers length points 0 part) (found : part[ip]? = some i) :
    F.Fits length points ip i := by
  have fits := covers ip i found
  rwa [Nat.zero_add] at fits

theorem Piece.stands {code : Code} {p q : σ} (piece : F.Piece code p q) : F.Stands code 0 p q := by
  obtain ⟨points, start, stop, covers⟩ := piece
  exact ⟨points, start, stop, Nat.zero_le _, covers⟩

theorem Stands.ended {code : Code} {p last : σ} (stands : F.Stands code ip p last)
    (behind : code[ip]? = none) : p = last := by
  obtain ⟨points, rfl, rfl, inside, -⟩ := stands
  rw [Nat.le_antisymm inside (List.getElem?_eq_none_iff.mp behind)]

theorem Stands.follows {code : Code} {p last : σ} (stands : F.Stands code ip p last)
    (found : code[ip]? = some i) : F.Follows code ip i p last := by
  obtain ⟨points, rfl, rfl, -, covers⟩ := stands
  have inside := (List.getElem?_eq_some_iff.mp found).1
  cases covers.fits found with
  | straight effect => exact .straight _ effect ⟨points, rfl, rfl, inside, covers⟩
  | jump target jumps given reached next =>
    refine .jump _ target jumps given reached ⟨points, rfl, rfl, ?_, covers⟩ fun other => ?_
    · exact (jumpTargetBound reached).1
    · exact ⟨points, next other, rfl, inside, covers⟩
  | exit op exits => exact .exit op exits

def glue (length : Nat) (points points' : Nat → σ) (j : Nat) : σ :=
  if j ≤ length then points j else points' (j - length)

theorem glueLow {j : Nat} (low : j ≤ length) : glue length points points' j = points j := if_pos low

theorem glueHigh {j : Nat} (high : 0 < j) : glue length points points' (length + j) = points' j := by
  unfold glue
  rw [if_neg (by omega), Nat.add_sub_cancel_left]

theorem glueMeet (meet : points length = points' 0) (j : Nat) :
    glue length points points' (length + j) = points' j := by
  cases j with
  | zero => rw [Nat.add_zero, glueLow (Nat.le_refl _), meet]
  | succ j => exact glueHigh (Nat.succ_pos j)

namespace Piece

variable {a b c : Code} {p p' q q' r r' : σ}

theorem nil : F.Piece [] p p := ⟨fun _ => p, rfl, rfl, .nil⟩

theorem one {i : Instr} (effect : F.effect i p q) : F.Piece [i] p q :=
  ⟨fun j => if j = 0 then p else q, rfl, rfl, .cons (.straight effect) .nil⟩

theorem exit {i : Instr} (op : i.opcode = .exit) (exits : F.exits p) : F.Piece [i] p p :=
  ⟨fun _ => p, rfl, rfl, .cons (.exit op exits) .nil⟩

theorem append (first : F.Piece a p q) (second : F.Piece b q r) : F.Piece (a ++ b) p r := by
  obtain ⟨f, fStart, fStop, fCovers⟩ := first
  obtain ⟨g, gStart, gStop, gCovers⟩ := second
  have meet : f a.length = g 0 := fStop.trans gStart.symm
  refine ⟨glue a.length f g, ?_, ?_, .append (fCovers.moved ?_ fun j inside => ?_) ?_⟩
  · rw [glueLow (Nat.zero_le _), fStart]
  · rw [List.length_append, glueMeet meet, gStop]
  · rw [List.length_append]
    omega
  · rw [Nat.zero_add, glueLow inside]
  · rw [Nat.zero_add]
    refine gCovers.moved (by rw [List.length_append]) fun j _ => ?_
    rw [glueMeet meet]

theorem bridge (first : F.Piece a p p') (second : F.Piece b q q')
    (fits : ∀ points : Nat → σ, points a.length = p' → points (a.length + 1) = q →
      points (a.length + 1 + b.length) = q' →
      F.Fits (a.length + 1 + b.length) points a.length i) :
    F.Piece (a ++ i :: b) p q' := by
  obtain ⟨f, fStart, fStop, fCovers⟩ := first
  obtain ⟨g, gStart, gStop, gCovers⟩ := second
  have total : (a ++ i :: b).length = a.length + 1 + b.length := by
    rw [List.length_append, List.length_cons]
    omega
  obtain ⟨points, low, high⟩ : ∃ points : Nat → σ, (∀ j ≤ a.length, points j = f j) ∧
      ∀ j, points (a.length + 1 + j) = g j := by
    refine ⟨glue a.length f fun j => g (j - 1), fun _ inside => glueLow inside, fun j => ?_⟩
    rw [Nat.add_assoc, glueHigh (by omega), Nat.add_sub_cancel_left]
  have here := (low a.length (Nat.le_refl _)).trans fStop
  have behind := (high 0).trans gStart
  have stop := (high b.length).trans gStop
  refine ⟨points, (low 0 (Nat.zero_le _)).trans fStart, by rw [total, stop], ?_⟩
  rw [total]
  refine .append (fCovers.moved (by omega) fun j inside => ?_) (.cons ?_ ?_)
  · rw [Nat.zero_add, low j inside]
  · rw [Nat.zero_add]
    exact fits points here behind stop
  · rw [Nat.zero_add]
    exact gCovers.moved (by omega) fun j _ => high j

theorem joined {j : Instr} (first : F.Piece a p p') (second : F.Piece b q q')
    (third : F.Piece c r r')
    (fits : ∀ points : Nat → σ, points 0 = p → points a.length = p' →
      points (a.length + 1) = q → points (a.length + 1 + b.length) = q' →
      points (a.length + 1 + b.length + 1) = r →
      points (a.length + 1 + b.length + 1 + c.length) = r' →
      F.Fits (a.length + 1 + b.length + 1 + c.length) points a.length i ∧
        F.Fits (a.length + 1 + b.length + 1 + c.length) points (a.length + 1 + b.length) j) :
    F.Piece (a ++ i :: (b ++ j :: c)) p r' := by
  obtain ⟨f, fStart, fStop, fCovers⟩ := first
  obtain ⟨g, gStart, gStop, gCovers⟩ := second
  obtain ⟨h, hStart, hStop, hCovers⟩ := third
  have total : (a ++ i :: (b ++ j :: c)).length = a.length + 1 + b.length + 1 + c.length := by
    simp only [List.length_append, List.length_cons]
    omega
  obtain ⟨points, low, middle, high⟩ : ∃ points : Nat → σ,
      (∀ k ≤ a.length, points k = f k) ∧ (∀ k ≤ b.length, points (a.length + 1 + k) = g k) ∧
      ∀ k, points (a.length + 1 + b.length + 1 + k) = h k := by
    refine ⟨glue a.length f fun k => glue b.length g (fun l => h (l - 1)) (k - 1),
      fun _ inside => glueLow inside, fun k inside => ?_, fun k => ?_⟩
    · rw [Nat.add_assoc, glueHigh (by omega), Nat.add_sub_cancel_left, glueLow inside]
    · rw [show a.length + 1 + b.length + 1 + k = a.length + (b.length + (1 + k) + 1) by omega,
        glueHigh (by omega), Nat.add_sub_cancel, glueHigh (by omega), Nat.add_sub_cancel_left]
  have stop := (high c.length).trans hStop
  obtain ⟨fitsI, fitsJ⟩ := fits points ((low 0 (Nat.zero_le _)).trans fStart)
    ((low _ (Nat.le_refl _)).trans fStop) ((middle 0 (Nat.zero_le _)).trans gStart)
    ((middle _ (Nat.le_refl _)).trans gStop) ((high 0).trans hStart) stop
  refine ⟨points, (low 0 (Nat.zero_le _)).trans fStart, by rw [total, stop], ?_⟩
  rw [total]
  refine .append (fCovers.moved (by omega) fun k inside => ?_)
    (.cons ?_ (.append (gCovers.moved ?_ ?_) (.cons ?_ (hCovers.moved ?_ ?_))))
  · rw [Nat.zero_add, low k inside]
  · rwa [Nat.zero_add]
  · omega
  · intro k inside
    rw [Nat.zero_add, middle k inside]
  · rwa [Nat.zero_add]
  · omega
  · intro k _
    rw [Nat.zero_add, high k]

end Piece

section
variable {m : Mark} {condition branch otherwise body : Code} {p p' q r : σ}

theorem branchPiece (first : F.Piece condition p p') (second : F.Piece branch r r)
    (jumps : ∀ offset, F.jumps (Bound.jump m .jz offset) p' r)
    (short : (Bound.branchCode m condition branch).length < 2 ^ 31) :
    F.Piece (Bound.branchCode m condition branch) p r := by
  unfold Bound.branchCode at short ⊢
  rw [List.length_append, List.length_cons] at short
  refine first.bridge second fun points here next stop => ?_
  refine .jump (condition.length + 1 + branch.length) ?_ rfl ?_ fun _ => ?_
  · rw [here, stop]
    exact jumps _
  · exact jumpReaches (by omega) (by omega) (by omega) (by omega)
  · rw [next, stop]

theorem choicePiece (first : F.Piece condition p p') (second : F.Piece branch r q)
    (third : F.Piece otherwise r q) (jumps : ∀ offset, F.jumps (Bound.jump m .jz offset) p' r)
    (leaps : ∀ offset, F.jumps (Bound.jump m .jmp offset) q q)
    (short : (Bound.choiceCode m condition branch otherwise).length < 2 ^ 31) :
    F.Piece (Bound.choiceCode m condition branch otherwise) p q := by
  unfold Bound.choiceCode at short ⊢
  rw [List.append_assoc, List.cons_append]
  simp only [List.length_append, List.length_cons] at short
  refine first.joined second third fun points _ here next there after stop => ⟨?_, ?_⟩
  · refine .jump (condition.length + 1 + branch.length + 1) ?_ rfl ?_ fun _ => ?_
    · rw [here, after]
      exact jumps _
    · exact jumpReaches (by omega) (by omega) (by omega) (by omega)
    · rw [next, after]
  · refine .jump (condition.length + 1 + branch.length + 1 + otherwise.length) ?_ rfl ?_
      fun other => (other rfl).elim
    · rw [there, stop]
      exact leaps _
    · exact jumpReaches (by omega) (by omega) (by omega) (by omega)

theorem loopPiece (first : F.Piece condition r p') (second : F.Piece body r r)
    (jumps : ∀ offset, F.jumps (Bound.jump m .jz offset) p' r)
    (leaps : ∀ offset, F.jumps (Bound.jump m .jmp offset) r r)
    (short : (Bound.loopCode m condition body).length < 2 ^ 31) :
    F.Piece (Bound.loopCode m condition body) r r := by
  unfold Bound.loopCode at short ⊢
  rw [List.append_assoc, List.cons_append]
  simp only [List.length_append, List.length_cons, List.length_nil] at short
  refine first.joined second (.nil (p := r)) fun points start here next there after stop => ⟨?_, ?_⟩
  · refine .jump (condition.length + 1 + body.length + 1) ?_ rfl ?_ fun _ => ?_
    · rw [here, after]
      exact jumps _
    · exact jumpReaches (by omega) (by omega) (by omega) (by omega)
    · rw [next, after]
  · refine .jump 0 ?_ rfl ?_ fun other => (other rfl).elim
    · rw [there, start]
      exact leaps _
    · exact jumpReaches (by omega) (by omega) (by omega) (by omega)

end

end Flow

end Quill
