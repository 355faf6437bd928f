import Mathlib.Data.List.TakeWhile
import Quill.Proofs.Lexing.Readers

/-! How a source text is divided. Blanks and lexemes take turns until the text is used up, each
token stands at the place its lexeme begins, and the end mark behind all of them. -/
namespace Quill

namespace Span

/-- The place behind `cs`: lines are counted by line ends, columns from the last one. -/
def behind (cs : List Char) : Span :=
  ⟨1 + cs.count '\n', 1 + (cs.reverse.takeWhile (· ≠ '\n')).length⟩

def Before (s t : Span) : Prop := s.line < t.line ∨ s.line = t.line ∧ s.col < t.col

theorem behindNext (cs : List Char) (c : Char) : (behind cs).next c = behind (cs ++ [c]) := by
  by_cases newline : c = '\n'
  · simp [next, behind, newline]
    omega
  · simp [next, behind, newline]
    omega

theorem behindAfter (cs ds : List Char) : (behind cs).after ds = behind (cs ++ ds) := by
  induction ds generalizing cs with
  | nil => simp [after]
  | cons d ds ih =>
    calc (behind cs).after (d :: ds) = ((behind cs).next d).after ds := rfl
      _ = behind (cs ++ [d] ++ ds) := by rw [behindNext, ih]
      _ = behind (cs ++ d :: ds) := by simp

theorem Before.trans {s t u : Span} (first : s.Before t) (second : t.Before u) : s.Before u := by
  unfold Before at *
  omega

theorem nextLater (s : Span) (c : Char) : s.Before (s.next c) := by
  unfold next Before
  split <;> simp

theorem afterLater (s : Span) (c : Char) (cs : List Char) : s.Before (s.after (c :: cs)) := by
  induction cs generalizing s c with
  | nil => exact nextLater s c
  | cons d ds ih => exact (nextLater s c).trans (ih (s.next c) d)

theorem behindLater (cs : List Char) {ds : List Char} (more : ds ≠ []) :
    (behind cs).Before (behind (cs ++ ds)) := by
  cases ds with
  | nil => exact absurd rfl more
  | cons d ds =>
    rw [← behindAfter]
    exact afterLater _ d ds

end Span

namespace Lexer

structure Part where
  blanks : List Char
  lexeme : List Char
  token : Spanned

def joined : List Part → List Char
  | [] => []
  | p :: rest => p.blanks ++ p.lexeme ++ joined rest

/-- Alone the lexeme reads as the token, with nothing left; the end mark has none. -/
inductive Spells : List Char → Token → Prop where
  | eof : Spells [] .eof
  | token {c : Char} {cs : List Char} {t : Token} (full : ¬ isBlank c) (other : t ≠ .eof)
      (reads : readToken c cs = .ok ⟨t, c :: cs, []⟩) : Spells (c :: cs) t

inductive Cut : List Char → List Char → List Part → Prop where
  | done {before blanks : List Char} (blank : ∀ c ∈ blanks, isBlank c) :
      Cut before blanks [⟨blanks, [], .eof, Span.behind (before ++ blanks)⟩]
  | read {before blanks cs : List Char} {c : Char} {r : Reading} {parts : List Part}
      (blank : ∀ c ∈ blanks, isBlank c) (full : ¬ isBlank c) (reads : readToken c cs = .ok r)
      (tail : Cut (before ++ blanks ++ r.text) r.rest parts) :
      Cut before (blanks ++ c :: cs)
        (⟨blanks, r.text, r.token, Span.behind (before ++ blanks)⟩ :: parts)

theorem scanEnd {place : Span} {blanks : List Char} (blank : ∀ c ∈ blanks, isBlank c) :
    scan place blanks = .ok [⟨.eof, place.after blanks⟩] := by
  have dropped : blanks.dropWhile isBlank = [] := List.dropWhile_eq_nil_iff.mpr blank
  have taken : blanks.takeWhile isBlank = blanks := List.takeWhile_eq_self_iff.mpr blank
  rw [scan, taken]
  split
  · rfl
  · rename_i shape
    cases dropped.symm.trans shape

theorem scanToken {place : Span} {blanks cs : List Char} {c : Char} {r : Reading}
    (blank : ∀ c ∈ blanks, isBlank c) (full : ¬ isBlank c) (reads : readToken c cs = .ok r) :
    scan place (blanks ++ c :: cs) = (scan ((place.after blanks).after r.text) r.rest).map
      (⟨r.token, place.after blanks⟩ :: ·) := by
  have taken : (blanks ++ c :: cs).takeWhile isBlank = blanks := by
    simp [List.takeWhile_append_of_pos blank, full]
  have dropped : (blanks ++ c :: cs).dropWhile isBlank = c :: cs := by
    simp [List.dropWhile_append_of_pos blank, full]
  rw [scan, taken]
  split
  · rename_i shape
    cases dropped.symm.trans shape
  · rename_i shape
    cases dropped.symm.trans shape
    split <;> rename_i again
    · cases reads.symm.trans again
    · cases reads.symm.trans again
      cases scan ((place.after blanks).after r.text) r.rest <;> rfl

theorem scanCut {before cs : List Char} {tokens : List Spanned}
    (scanned : scan (Span.behind before) cs = .ok tokens) :
    ∃ parts, parts.map Part.token = tokens ∧ Cut before cs parts := by
  generalize placed : Span.behind before = place at scanned
  fun_induction scan generalizing tokens before with
  | case1 place cs here =>
    rename_i shape
    subst placed
    have there : here = Span.behind (before ++ cs.takeWhile isBlank) := Span.behindAfter _ _
    have whole := List.takeWhile_append_dropWhile (p := isBlank) (l := cs)
    rw [shape, List.append_nil] at whole
    rw [whole] at there
    cases scanned
    refine ⟨[⟨cs, [], .eof, Span.behind (before ++ cs)⟩], by simp [there], .done ?_⟩
    exact whole ▸ List.all_eq_true.mp List.all_takeWhile
  | case2 | case3 => cases scanned
  | case4 place cs here c rest shape r read more behind =>
    rename_i ih
    subst placed
    have there : here = Span.behind (before ++ cs.takeWhile isBlank) := Span.behindAfter _ _
    have whole := List.takeWhile_append_dropWhile (p := isBlank) (l := cs)
    rw [shape] at whole
    have next : Span.behind (before ++ cs.takeWhile isBlank ++ r.text) = here.after r.text := by
      rw [there, Span.behindAfter]
    obtain ⟨parts, rfl, cut⟩ := ih next behind
    cases scanned
    refine ⟨⟨cs.takeWhile isBlank, r.text, r.token, here⟩ :: parts, rfl, ?_⟩
    have full : ¬ isBlank c := by
      have stops := List.head?_dropWhile_not isBlank cs
      simpa [shape] using stops
    have step : Cut before (cs.takeWhile isBlank ++ c :: rest) _ :=
      .read (List.all_eq_true.mp List.all_takeWhile) full read cut
    rwa [whole, ← there] at step

variable {before cs : List Char} {parts : List Part}

theorem Cut.joined (cut : Cut before cs parts) : joined parts = cs := by
  induction cut with
  | done => simp [Lexer.joined]
  | read blank full reads tail ih =>
    simp [Lexer.joined, ih, readToken_split reads]

theorem Cut.blank (cut : Cut before cs parts) : ∀ p ∈ parts, ∀ c ∈ p.blanks, isBlank c := by
  induction cut with
  | done blank => exact List.forall_mem_singleton.mpr blank
  | read blank full reads tail ih => exact List.forall_mem_cons.mpr ⟨blank, ih⟩

theorem readTokenSpells {c : Char} {r : Reading} (full : ¬ isBlank c)
    (reads : readToken c cs = .ok r) : Spells r.text r.token := by
  have alone : Apart [] := nofun
  obtain ⟨more, text, again⟩ := readTokenBefore reads (alone.parted _) nofun
  rw [text]
  exact .token full (readTokenLexical reads).noEnd (by simpa [Reading.before, text] using again)

theorem Cut.spelled (cut : Cut before cs parts) : ∀ p ∈ parts, Spells p.lexeme p.token.token := by
  induction cut with
  | done blank => exact List.forall_mem_singleton.mpr .eof
  | read blank full reads tail ih =>
    exact List.forall_mem_cons.mpr ⟨readTokenSpells full reads, ih⟩

theorem Cut.placed (cut : Cut before cs parts) {front behind : List Part} {p : Part}
    (shape : parts = front ++ p :: behind) :
    p.token.span = Span.behind (before ++ Lexer.joined front ++ p.blanks) := by
  induction cut generalizing front with
  | done blank =>
    cases front with
    | nil => cases shape; simp [Lexer.joined]
    | cons q front => simp at shape
  | read blank full reads tail ih =>
    cases front with
    | nil => cases shape; simp [Lexer.joined]
    | cons q front =>
      cases shape
      simpa [Lexer.joined] using ih rfl

theorem Cut.ordered (cut : Cut before cs parts) :
    (parts.map fun p => p.token.span).Pairwise Span.Before := by
  induction cut with
  | done => exact List.pairwise_singleton _ _
  | @read before blanks cs c r parts blank full reads tail ih =>
    refine List.pairwise_cons.mpr ⟨?_, ih⟩
    intro span member
    obtain ⟨p, held, rfl⟩ := List.mem_map.mp member
    obtain ⟨front, behind, shape⟩ := List.append_of_mem held
    rw [tail.placed shape]
    simp only [List.append_assoc]
    rw [← List.append_assoc before blanks]
    exact Span.behindLater _ (by simp [readToken_text_ne_nil reads])

theorem Cut.ends (cut : Cut before cs parts) :
    ∃ front blanks, parts = front ++ [⟨blanks, [], .eof, Span.behind (before ++ cs)⟩] ∧
      ∀ p ∈ front, p.token.token ≠ .eof := by
  induction cut with
  | @done before blanks => exact ⟨[], blanks, rfl, nofun⟩
  | @read before blanks cs c r parts blank full reads tail ih =>
    obtain ⟨front, last, rfl, others⟩ := ih
    have whole : before ++ blanks ++ r.text ++ r.rest = before ++ (blanks ++ c :: cs) := by
      simp [readToken_split reads]
    rw [whole]
    exact ⟨_ :: front, last, rfl, List.forall_mem_cons.mpr ⟨(readTokenLexical reads).noEnd, others⟩⟩

end Lexer

/-- How a source text and its tokens divide: the text is the blanks and the lexemes, one lexeme to a
token; a token stands behind all that is in front of its lexeme; and the end mark comes last, behind
the whole text. -/
structure Divides (source : List Char) (tokens : List Spanned) (parts : List Lexer.Part) : Prop where
  inOrder : parts.map Lexer.Part.token = tokens
  whole : Lexer.joined parts = source
  blank : ∀ p ∈ parts, ∀ c ∈ p.blanks, Lexer.isBlank c
  spelled : ∀ p ∈ parts, Lexer.Spells p.lexeme p.token.token
  placed : ∀ front p behind, parts = front ++ p :: behind →
    p.token.span = Span.behind (Lexer.joined front ++ p.blanks)
  ordered : (tokens.map Spanned.span).Pairwise Span.Before
  ends : ∃ front, tokens = front ++ [⟨.eof, Span.behind source⟩] ∧ ∀ t ∈ front, t.token ≠ .eof

/-- Whatever is accepted is divided. -/
theorem lexedDivides {source : String} {tokens : List Spanned} (lexed : lex source = .ok tokens) :
    ∃ parts, Divides source.toList tokens parts := by
  have scanned : Lexer.scan (Span.behind []) source.toList = .ok tokens := lexed
  obtain ⟨parts, rfl, cut⟩ := Lexer.scanCut scanned
  refine ⟨parts, rfl, cut.joined, cut.blank, cut.spelled, ?_, ?_, ?_⟩
  · intro front p behind shape
    exact cut.placed shape
  · simpa [Function.comp_def] using cut.ordered
  · obtain ⟨front, blanks, rfl, others⟩ := cut.ends
    exact ⟨front.map Lexer.Part.token, by simp, by simpa using others⟩

theorem linesDivide : ∃ parts, Divides "x += 0x1F # up\n\t'\\n'\r".toList
    [⟨.ident "x", 1, 1⟩, ⟨.compound (.symbol .plus), 1, 3⟩, ⟨.integer 31, 1, 6⟩,
      ⟨.comment "up", 1, 11⟩, ⟨.newline, 1, 15⟩, ⟨.char '\n', 2, 2⟩, ⟨.eof, 2, 7⟩] parts :=
  lexedDivides (by with_unfolding_all rfl)

end Quill
