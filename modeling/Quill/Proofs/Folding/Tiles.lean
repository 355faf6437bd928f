import Quill.Proofs.Folding.Doubles

/-! What folding keeps covers the code without gaps: each instruction that is kept stands for a
block of the code, from its origin up to that of the next. No jump leads inside a block. -/
namespace Quill

variable {targets : List Nat} {code : Code}

theorem foldedBinary {op right left folded : Kept}
    (folds : foldBinary? targets op right left = some folded) :
    op.opcode.isBinary ∧ op.origin ∉ targets ∧ right.origin ∉ targets ∧
      ∃ a b v x, left.constant? = some a ∧ right.constant? = some b ∧
        Value.binary op.opcode a b = .ok v ∧ Value.ofOperand? x = some v ∧
        folded = ⟨.mk .push x op.instr.source, left.origin⟩ := by
  unfold foldBinary? at folds
  split at folds
  · cases folds
  · rename_i open_
    simp only [Bool.or_eq_true, Bool.not_eq_true', decide_eq_true_eq, not_or,
      Bool.not_eq_false] at open_
    obtain ⟨⟨binary, free⟩, free'⟩ := open_
    obtain ⟨a, first, folds⟩ := Option.bind_eq_some_iff.mp folds
    obtain ⟨b, second, folds⟩ := Option.bind_eq_some_iff.mp folds
    obtain ⟨x, result, folds⟩ := Option.bind_eq_some_iff.mp folds
    obtain ⟨v, given, constant⟩ := resultConstant result
    cases folds
    exact ⟨binary, free, free', a, b, v, x, first, second, given, constant, rfl⟩

theorem foldedUnary {op operand folded : Kept}
    (folds : foldUnary? targets op operand = some folded) :
    op.opcode.isUnary ∧ op.origin ∉ targets ∧
      ∃ a v x, operand.constant? = some a ∧ Value.unary op.opcode a = .ok v ∧
        Value.ofOperand? x = some v ∧
        folded = ⟨.mk .push x op.instr.source, operand.origin⟩ := by
  unfold foldUnary? at folds
  split at folds
  · cases folds
  · rename_i open_
    simp only [Bool.or_eq_true, Bool.not_eq_true', decide_eq_true_eq, not_or,
      Bool.not_eq_false] at open_
    obtain ⟨a, first, folds⟩ := Option.bind_eq_some_iff.mp folds
    obtain ⟨x, result, folds⟩ := Option.bind_eq_some_iff.mp folds
    obtain ⟨v, given, constant⟩ := resultConstant result
    cases folds
    exact ⟨open_.1, open_.2, a, v, x, first, given, constant, rfl⟩

/-- An instruction that is kept, and the number of those it stands for. -/
inductive StandsFor (targets : List Nat) (code : Code) : Kept → Nat → Prop where
  | single {ip : Nat} {i : Instr} (found : code[ip]? = some i) : StandsFor targets code ⟨i, ip⟩ 1
  | binary {left right op folded : Kept} {a b : Nat} (first : StandsFor targets code left a)
      (second : StandsFor targets code right b) (joined : right.origin = left.origin + a)
      (last : op.origin = right.origin + b) (found : code[op.origin]? = some op.instr)
      (folds : foldBinary? targets op right left = some folded) :
      StandsFor targets code folded (a + b + 1)
  | unary {operand op folded : Kept} {a : Nat} (first : StandsFor targets code operand a)
      (last : op.origin = operand.origin + a) (found : code[op.origin]? = some op.instr)
      (folds : foldUnary? targets op operand = some folded) :
      StandsFor targets code folded (a + 1)

def Tiles (targets : List Nat) (code : Code) : List Kept → Nat → Prop
  | [], stop => stop = 0
  | k :: out, stop => Tiles targets code out k.origin ∧
    ∃ width, StandsFor targets code k width ∧ stop = k.origin + width

theorem keepCases (targets : List Nat) (out : List Kept) (k : Kept) :
    keep targets out k = k :: out ∨
    (∃ right left rest folded, out = right :: left :: rest ∧
      foldBinary? targets k right left = some folded ∧ keep targets out k = folded :: rest) ∨
    ∃ operand rest folded, out = operand :: rest ∧ foldUnary? targets k operand = some folded ∧
      keep targets out k = folded :: rest := by
  match out with
  | [] => exact .inl rfl
  | [operand] =>
    cases folds : foldUnary? targets k operand with
    | none => exact .inl (by simp only [keep, folds])
    | some folded =>
      exact .inr (.inr ⟨operand, [], folded, rfl, folds, by simp only [keep, folds]⟩)
  | right :: left :: rest =>
    cases folds : foldBinary? targets k right left with
    | some folded =>
      exact .inr (.inl ⟨right, left, rest, folded, rfl, folds, by simp only [keep, folds]⟩)
    | none =>
      cases folds' : foldUnary? targets k right with
      | none => exact .inl (by simp only [keep, folds, folds'])
      | some folded =>
        exact .inr (.inr ⟨right, left :: rest, folded, rfl, folds',
          by simp only [keep, folds, folds']⟩)

theorem tilesKeep {k : Kept} {out : List Kept} {ip : Nat} (below : Tiles targets code out ip)
    (origin : k.origin = ip) (found : code[ip]? = some k.instr) :
    Tiles targets code (keep targets out k) (ip + 1) := by
  rcases keepCases targets out k with
    kept | ⟨right, left, rest, folded, rfl, folds, kept⟩ | ⟨operand, rest, folded, rfl, folds, kept⟩
  · rw [kept]
    obtain ⟨i, start⟩ := k
    change start = ip at origin
    subst origin
    exact ⟨below, 1, .single found, rfl⟩
  · rw [kept]
    obtain ⟨⟨below, a, first, joined⟩, b, second, last⟩ := below
    have start : folded.origin = left.origin := by
      obtain ⟨-, -, -, _, _, _, _, -, -, -, -, same⟩ := foldedBinary folds
      rw [same]
    refine ⟨start ▸ below, a + b + 1, ?_, by omega⟩
    exact .binary first second joined (origin.trans last) (origin ▸ found) folds
  · rw [kept]
    obtain ⟨below, a, first, last⟩ := below
    have start : folded.origin = operand.origin := by
      obtain ⟨-, -, _, _, _, -, -, -, same⟩ := foldedUnary folds
      rw [same]
    refine ⟨start ▸ below, a + 1, ?_, by omega⟩
    exact .unary first (origin.trans last) (origin ▸ found) folds

def begins (later : List Kept) (ip : Nat) : Nat := (later.getLast?.map Kept.origin).getD ip

theorem beginsCons (k : Kept) (later : List Kept) (ip : Nat) :
    begins (k :: later) ip = begins later k.origin := by
  unfold begins
  cases later with
  | nil => rfl
  | cons next more =>
    rw [List.getLast?_cons_cons, List.getLast?_cons]
    rfl

def Lands (out : List Kept) (ip t p : Nat) : Prop :=
  ∃ later earlier, out = later ++ earlier ∧ earlier.length = p ∧ begins later ip = t

theorem landsHere (out : List Kept) (ip : Nat) : Lands out ip ip out.length :=
  ⟨[], out, rfl, rfl, rfl⟩

theorem landsKeep {k : Kept} {out : List Kept} {ip t p : Nat} (lands : Lands out ip t p)
    (target : t ∈ targets) (origin : k.origin = ip) :
    Lands (keep targets out k) (ip + 1) t p := by
  obtain ⟨later, earlier, same, height, start⟩ := lands
  rcases keepCases targets out k with
    kept | ⟨right, left, rest, folded, split, folds, kept⟩ | ⟨operand, rest, folded, split, folds, kept⟩
  · exact ⟨k :: later, earlier, by rw [kept, same]; rfl, height,
      by rw [beginsCons, origin, start]⟩
  · obtain ⟨-, free, free', _, _, _, _, -, -, -, -, rfl⟩ := foldedBinary folds
    match later with
    | [] =>
      rw [← start, ← origin] at target
      exact (free target).elim
    | [right'] =>
      cases same.symm.trans split
      rw [← start] at target
      exact (free' target).elim
    | right' :: left' :: more =>
      cases same.symm.trans split
      refine ⟨_ :: more, earlier, kept, height, ?_⟩
      rw [beginsCons, beginsCons] at start
      rw [beginsCons]
      exact start
  · obtain ⟨-, free, _, _, _, -, -, -, rfl⟩ := foldedUnary folds
    match later with
    | [] =>
      rw [← start, ← origin] at target
      exact (free target).elim
    | operand' :: more =>
      cases same.symm.trans split
      refine ⟨_ :: more, earlier, kept, height, ?_⟩
      rw [beginsCons] at start ⊢
      exact start

theorem keepAllCovers (rest : Code) {ip : Nat} {out : List Kept} (left : code.drop ip = rest)
    (bound : ip ≤ code.length) (below : Tiles targets code out ip) :
    Tiles targets code (keepAll targets ip out rest).1.reverse code.length ∧
    (∀ t ∈ targets, ∀ p, Lands out ip t p →
      Lands (keepAll targets ip out rest).1.reverse code.length t p) ∧
    ∀ t ∈ targets, ip ≤ t → t ≤ code.length → ∃ p,
      (keepAll targets ip out rest).2[t - ip]? = some p ∧
      Lands (keepAll targets ip out rest).1.reverse code.length t p := by
  induction rest generalizing ip out with
  | nil =>
    have last : ip = code.length := by
      have short := List.drop_eq_nil_iff.mp left
      omega
    subst last
    simp only [keepAll, List.reverse_reverse]
    refine ⟨below, fun t _ p lands => lands, fun t _ after before => ⟨out.length, ?_, ?_⟩⟩
    · rw [show t - code.length = 0 by omega]
      rfl
    · rw [show t = code.length by omega]
      exact landsHere out _
  | cons i rest ih =>
    have found : code[ip]? = some i := by
      rw [← List.head?_drop, left]
      rfl
    have next : code.drop (ip + 1) = rest := by
      rw [← List.tail_drop, left]
      rfl
    have inside : ip < code.length := (List.getElem?_eq_some_iff.mp found).1
    obtain ⟨covers, keeps, positions⟩ := ih next inside (tilesKeep (k := ⟨i, ip⟩) below rfl found)
    simp only [keepAll]
    refine ⟨covers, fun t target p lands => keeps t target p (landsKeep lands target rfl), ?_⟩
    intro t target after before
    by_cases here : t = ip
    · subst here
      -- The position is noted here, and no later fold takes in what stands there.
      refine ⟨out.length, ?_, keeps t target _ (landsKeep (landsHere out t) target rfl)⟩
      rw [Nat.sub_self]
      rfl
    · obtain ⟨p, position, lands⟩ := positions t target (by omega) before
      refine ⟨p, ?_, lands⟩
      rw [show t - ip = t - (ip + 1) + 1 by omega]
      exact position

end Quill
