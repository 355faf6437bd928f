import Quill.Proofs.Lexing.Division
import Quill.Proofs.Parsing.Unplaced

/-! More blanks in front of a lexeme. What stands before is read as it was, since no reader looks
past a blank, but for a comment, which takes the blanks in and drops them at its end; what stands
behind is read as it was, at other places. -/
namespace Quill

theorem Span.behindInjective {front front' back back' : List Char}
    (whole : front ++ back = front' ++ back') (same : behind front = behind front') :
    front = front' ∧ back = back' := by
  have irreflexive (s : Span) : ¬ s.Before s := by
    unfold Before
    omega
  rcases List.append_eq_append_iff.mp whole with ⟨more, rfl, rfl⟩ | ⟨more, rfl, rfl⟩
  · by_cases none : more = []
    · subst none
      simp
    · exact absurd (same ▸ behindLater front none) (irreflexive _)
  · by_cases none : more = []
    · subst none
      simp
    · exact absurd (same ▸ behindLater front' none) (irreflexive _)

theorem Text.trimBlanks (cs : List Char) {blanks : List Char}
    (blank : ∀ c ∈ blanks, isWhiteSpace c) : trim (cs ++ blanks) = trim cs := by
  have reversed : ∀ c ∈ blanks.reverse, isWhiteSpace c := fun c held =>
    blank c (List.mem_reverse.mp held)
  rw [trim, trim, List.dropWhile_append]
  split
  · rename_i none
    rw [List.isEmpty_iff.mp none, List.dropWhile_eq_nil_iff.mpr blank]
  · rw [List.reverse_append, List.dropWhile_append_of_pos reversed]

namespace Lexer

def kinds (parts : List Part) : List Token := parts.map fun p => p.token.token

theorem blankWhite {c : Char} (blank : isBlank c) : Text.isWhiteSpace c := by
  simp only [isBlank, Bool.or_eq_true, decide_eq_true_eq] at blank
  rcases blank with (rfl | rfl) | rfl <;> decide

section
variable {before cs : List Char} {parts : List Part}

theorem cutScan (cut : Cut before cs parts) :
    scan (Span.behind before) cs = .ok (parts.map Part.token) := by
  induction cut with
  | done blank => rw [scanEnd blank, Span.behindAfter]; rfl
  | read blank full reads tail ih =>
    rw [scanToken blank full reads, Span.behindAfter, Span.behindAfter, ih]
    rfl

theorem Cut.moved (cut : Cut before cs parts) (before' : List Char) :
    ∃ parts', Cut before' cs parts' ∧ kinds parts' = kinds parts := by
  induction cut generalizing before' with
  | done blank => exact ⟨_, .done blank, rfl⟩
  | @read before blanks cs c r parts blank full reads tail ih =>
    obtain ⟨parts', tail', same⟩ := ih (before' ++ blanks ++ r.text)
    exact ⟨_, .read blank full reads tail', congrArg (r.token :: ·) same⟩

end

theorem readComment (cs : List Char) : readToken '#' cs =
    .ok ⟨.comment (String.ofList (Text.trim (cs.takeWhile (· ≠ '\n')))),
      '#' :: cs.takeWhile (· ≠ '\n'), cs.dropWhile (· ≠ '\n')⟩ := rfl

theorem joinedAppend (front behind : List Part) :
    joined (front ++ behind) = joined front ++ joined behind := by
  induction front with
  | nil => rfl
  | cons p front ih => simp [joined, ih]

section
variable {blanks : List Char} (blank : ∀ c ∈ blanks, isBlank c)
include blank

theorem commentSpread {cs : List Char} {r : Reading} (read : readToken '#' cs = .ok r) :
    ∃ more, r.text = '#' :: more ∧
      readToken '#' (more ++ (blanks ++ r.rest)) = .ok ⟨r.token, r.text ++ blanks, r.rest⟩ := by
  rw [readComment] at read
  cases read
  have inLine : ∀ c ∈ cs.takeWhile (· ≠ '\n') ++ blanks, decide (c ≠ '\n') = true := by
    refine List.forall_mem_append.mpr ⟨List.all_eq_true.mp List.all_takeWhile, ?_⟩
    intro c held
    refine decide_eq_true fun same => ?_
    subst same
    exact absurd (blank _ held) (by decide)
  have stops := droppedStops (· ≠ '\n') cs
  have body : (cs.takeWhile (· ≠ '\n') ++ blanks).takeWhile (· ≠ '\n') =
      cs.takeWhile (· ≠ '\n') ++ blanks := List.takeWhile_eq_self_iff.mpr inLine
  refine ⟨cs.takeWhile (· ≠ '\n'), rfl, ?_⟩
  rw [← List.append_assoc, ← body, readComment, takenAgain stops, droppedAgain stops, body,
    Text.trimBlanks _ fun c held => blankWhite (blank c held)]
  rfl

theorem readTokenSpread {c : Char} {cs u v : List Char} {r : Reading}
    (read : readToken c cs = .ok r) (left : r.rest = u ++ v) :
    ∃ more, r.text = c :: more ∧
      (readToken c (more ++ (u ++ (blanks ++ v))) = .ok (r.before (u ++ (blanks ++ v))) ∨
        u = [] ∧ readToken c (more ++ (blanks ++ v)) = .ok ⟨r.token, r.text ++ blanks, v⟩) := by
  have parted : Parted r.rest (u ++ (blanks ++ v)) := by
    cases blanks with
    | nil => exact ⟨r.rest, [], [], by simp, by simp [left], nofun⟩
    | cons b bs =>
      refine ⟨u, v, _, left, rfl, ?_⟩
      rintro _ ⟨⟩
      exact blankEnds (blank _ List.mem_cons_self)
  by_cases comment : c = '#' ∧ u = []
  · obtain ⟨rfl, rfl⟩ := comment
    obtain ⟨more, text, again⟩ := commentSpread blank read
    rw [left] at again
    exact ⟨more, text, .inr ⟨rfl, again⟩⟩
  · have line (mark : c = '#') : ∀ d ∈ (u ++ (blanks ++ v)).head?, d = '\n' := by
      subst mark
      rw [readComment] at read
      cases read
      cases u with
      | nil => exact absurd ⟨rfl, rfl⟩ comment
      | cons d u =>
        have stops := droppedStops (· ≠ '\n') cs
        rw [show cs.dropWhile (· ≠ '\n') = d :: u ++ v from left] at stops
        exact fun e first => by simpa using stops e first
    obtain ⟨more, text, again⟩ := readTokenBefore read parted line
    exact ⟨more, text, .inl again⟩

theorem Cut.spread {before cs : List Char} {parts front behind : List Part} {p : Part}
    (cut : Cut before cs parts) (shape : parts = front ++ p :: behind) (before' : List Char) :
    ∃ parts', Cut before' (Lexer.joined front ++ p.blanks ++
      (blanks ++ (p.lexeme ++ Lexer.joined behind))) parts' ∧ kinds parts' = kinds parts := by
  induction cut generalizing front before' with
  | @done before gap gapBlank =>
    cases front with
    | nil =>
      cases shape
      have all : ∀ c ∈ gap ++ blanks, isBlank c := List.forall_mem_append.mpr ⟨gapBlank, blank⟩
      rw [show Lexer.joined [] ++ gap ++ (blanks ++ ([] ++ Lexer.joined [])) = gap ++ blanks by
        simp [Lexer.joined]]
      exact ⟨_, .done all, rfl⟩
    | cons q front => simp at shape
  | @read before gap cs c r parts gapBlank full reads tail ih =>
    cases front with
    | nil =>
      cases shape
      have all : ∀ c ∈ gap ++ blanks, isBlank c := List.forall_mem_append.mpr ⟨gapBlank, blank⟩
      obtain ⟨parts', tail', same⟩ := tail.moved (before' ++ (gap ++ blanks) ++ r.text)
      rw [show Lexer.joined [] ++ gap ++ (blanks ++ (r.text ++ Lexer.joined behind)) =
        gap ++ blanks ++ c :: cs by simp [Lexer.joined, tail.joined, readToken_split reads]]
      exact ⟨_, .read all full reads tail', congrArg (r.token :: ·) same⟩
    | cons q front =>
      cases shape
      have left : r.rest = (Lexer.joined front ++ p.blanks) ++ (p.lexeme ++ Lexer.joined behind) := by
        simp [← tail.joined, joinedAppend, Lexer.joined]
      obtain ⟨more, text, again⟩ := readTokenSpread blank reads left
      rw [show Lexer.joined (⟨gap, r.text, r.token, _⟩ :: front) ++ p.blanks ++
        (blanks ++ (p.lexeme ++ Lexer.joined behind)) = gap ++ c :: (more ++ (Lexer.joined front ++
          p.blanks ++ (blanks ++ (p.lexeme ++ Lexer.joined behind)))) by simp [Lexer.joined, text]]
      rcases again with again | ⟨none, again⟩
      · obtain ⟨parts', tail', same⟩ := ih rfl (before' ++ gap ++ r.text)
        exact ⟨_, .read gapBlank full again tail', congrArg (r.token :: ·) same⟩
      · rw [none, List.nil_append] at left ⊢
        obtain ⟨parts', tail', same⟩ := tail.moved (before' ++ gap ++ (r.text ++ blanks))
        rw [left] at tail'
        exact ⟨_, .read gapBlank full again tail', congrArg (r.token :: ·) same⟩

end

end Lexer

/-- More blanks in front of a token leave the tokens and what they are parsed to as they are, apart
from places. -/
theorem blanksIgnored {source : String} {before behind blanks : List Char} {tokens : List Spanned}
    {t : Spanned} (lexed : lex source = .ok tokens) (whole : source.toList = before ++ behind)
    (listed : t ∈ tokens) (placed : t.span = Span.behind before)
    (blank : ∀ c ∈ blanks, Lexer.isBlank c) :
    ∃ tokens', lex (String.ofList (before ++ (blanks ++ behind))) = .ok tokens' ∧
      tokens'.map (·.token) = tokens.map (·.token) ∧
      unplacedParse (parse tokens') = unplacedParse (parse tokens) := by
  have scanned : Lexer.scan (Span.behind []) (before ++ behind) = .ok tokens := whole ▸ lexed
  obtain ⟨parts, rfl, cut⟩ := Lexer.scanCut scanned
  obtain ⟨p, held, rfl⟩ := List.mem_map.mp listed
  obtain ⟨front, back, shape⟩ := List.append_of_mem held
  have divided : (Lexer.joined front ++ p.blanks) ++ (p.lexeme ++ Lexer.joined back) =
      before ++ behind := by
    rw [← cut.joined, shape, Lexer.joinedAppend, Lexer.joined]
    simp
  obtain ⟨rfl, rfl⟩ := Span.behindInjective divided ((cut.placed shape).symm.trans placed)
  obtain ⟨parts', cut', same⟩ := cut.spread blank shape []
  have tokensSame : (parts'.map Lexer.Part.token).map (·.token) =
      (parts.map Lexer.Part.token).map (·.token) := by
    rw [List.map_map, List.map_map]
    exact same
  refine ⟨parts'.map Lexer.Part.token, ?_, tokensSame, placesIgnored tokensSame⟩
  rw [lex, String.toList_ofList]
  exact Lexer.cutScan cut'

theorem blanksIgnoredAtEnd : ∃ tokens',
    lex (String.ofList ("x; # up".toList ++ ([' ', '\t'] ++ []))) = .ok tokens' ∧
    tokens'.map (·.token) = [.ident "x", .symbol .semicolon, .comment "up", .eof] ∧
    unplacedParse (parse tokens') = unplacedParse (parse [⟨.ident "x", 1, 1⟩,
      ⟨.symbol .semicolon, 1, 2⟩, ⟨.comment "up", 1, 4⟩, ⟨.eof, 1, 8⟩]) := by
  have lexed : lex "x; # up" = .ok [⟨.ident "x", 1, 1⟩, ⟨.symbol .semicolon, 1, 2⟩,
    ⟨.comment "up", 1, 4⟩, ⟨.eof, 1, 8⟩] := by with_unfolding_all rfl
  have listed : ⟨.eof, 1, 8⟩ ∈ [⟨.ident "x", 1, 1⟩, ⟨.symbol .semicolon, 1, 2⟩,
    ⟨.comment "up", 1, 4⟩, Spanned.mk .eof ⟨1, 8⟩] := by simp
  exact blanksIgnored lexed (List.append_nil _).symm listed (by decide) (by simp [Lexer.isBlank])

end Quill
