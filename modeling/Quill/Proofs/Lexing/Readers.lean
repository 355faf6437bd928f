import Quill.Token.Lexer

/-! What the readers give. There is one kind of token for each reader, and never an end mark. Which
characters a reader takes is decided by those and by the next two behind them, so what was read once
is read the same where a blank, a line end or nothing takes the place of what follows, or of a part
of it. -/
namespace Quill.Lexer

inductive Lexical : Token → Prop where
  | newline : Lexical .newline
  | comment (text : String) : Lexical (.comment text)
  | string (text : String) : Lexical (.string text)
  | char (c : Char) : Lexical (.char c)
  | integer (n : Int64) : Lexical (.integer n)
  | float (digits : List Char) : Lexical (.float (decimalValue digits))
  | bool (b : Bool) : Lexical (.bool b)
  | none : Lexical .none
  | keyword (k : Keyword) : Lexical (.keyword k)
  | ident (name : String) : Lexical (.ident name)
  | symbol (s : Symbol) : Lexical (.symbol s)
  | compound (s : Symbol) : Lexical (.compound (.symbol s))

theorem Lexical.noEnd {t : Token} (lexical : Lexical t) : t ≠ .eof := by
  cases lexical <;> nofun

theorem closeCharLexical {c : Char} {text cs : List Char} {r : Reading}
    (read : closeChar c text cs = .ok r) : Lexical r.token := by
  unfold closeChar at read
  split at read <;> cases read
  exact .char c

theorem readCharLexical {cs : List Char} {r : Reading} (read : readChar cs = .ok r) :
    Lexical r.token := by
  unfold readChar at read
  split at read
  · cases read
  · cases read
  · split at read
    · cases read
    · exact closeCharLexical read
  · split at read
    · cases read
    · exact closeCharLexical read

theorem readHexLexical {x : Char} {cs : List Char} {r : Reading} (read : readHex x cs = .ok r) :
    Lexical r.token := by
  unfold readHex at read
  simp only at read
  split at read
  · cases read
  · split at read <;> cases read
    exact .integer _

theorem readDecimalLexical {cs : List Char} {r : Reading} (read : readDecimal cs = .ok r) :
    Lexical r.token := by
  unfold readDecimal at read
  simp only at read
  split at read
  · cases read
    exact .float _
  · split at read <;> cases read
    exact .integer _

theorem wordLexical (name : String) : Lexical (word name) := by
  unfold word
  split
  · exact .bool true
  · exact .bool false
  · exact .none
  · split
    · exact .keyword _
    · exact .ident _

theorem spellingLexical : ∀ s ∈ spellings, Lexical s.2 := by
  intro s held
  rcases List.mem_append.mp held with plain | compound
  · obtain ⟨symbol, -, rfl⟩ := List.mem_map.mp plain
    exact .symbol symbol
  · obtain ⟨symbol, -, rfl⟩ := List.mem_map.mp compound
    exact .compound symbol

theorem readSymbolLexical {cs : List Char} {r : Reading} (read : readSymbol cs = some r) :
    Lexical r.token := by
  obtain ⟨s, found, rfl⟩ := Option.map_eq_some_iff.mp read
  simp only [Option.or_eq_some_iff] at found
  rcases found with (found | ⟨-, found⟩) | ⟨-, found⟩ <;>
    exact spellingLexical s (List.mem_filter.mp (List.mem_of_find?_eq_some found)).1

theorem readTokenLexical {c : Char} {cs : List Char} {r : Reading}
    (read : readToken c cs = .ok r) : Lexical r.token := by
  unfold readToken at read
  split at read
  · cases read
    exact .newline
  split at read
  · cases read
    exact .comment _
  split at read
  · unfold readString at read
    split at read <;> cases read
    exact .string _
  split at read
  · exact readCharLexical read
  split at read
  · unfold readNumber at read
    split at read
    · exact readHexLexical read
    · exact readHexLexical read
    · exact readDecimalLexical read
  split at read
  · cases read
    exact wordLexical _
  · split at read <;> cases read
    exact readSymbolLexical ‹_›

def Reading.before (r : Reading) (behind : List Char) : Reading := { r with rest := behind }

def endings : List Char := [' ', '\t', '\r', '\n']

theorem blankEnds {c : Char} (blank : isBlank c) : c ∈ endings := by
  simp only [isBlank, Bool.or_eq_true, decide_eq_true_eq] at blank
  rcases blank with (rfl | rfl) | rfl <;> decide

def Apart (behind : List Char) : Prop := ∀ d ∈ behind.head?, d ∈ endings

theorem Apart.refused {p : Char → Bool} {behind : List Char} (apart : Apart behind)
    (refuses : endings.all fun d => !p d) : ∀ d ∈ behind.head?, p d = false := by
  intro d first
  simpa using List.all_eq_true.mp refuses d (apart d first)

/-- A text that goes on as another does, as far as it does not come to its end, to a blank or to a
line end before. -/
def Parted (rest behind : List Char) : Prop :=
  ∃ u v w, rest = u ++ v ∧ behind = u ++ w ∧ Apart w

theorem Apart.parted {behind : List Char} (apart : Apart behind) (rest : List Char) :
    Parted rest behind :=
  ⟨[], rest, behind, rfl, rfl, apart⟩

theorem Parted.refused {p : Char → Bool} {rest behind : List Char} (parted : Parted rest behind)
    (refuses : endings.all fun d => !p d) (stopped : ∀ d ∈ rest.head?, p d = false) :
    ∀ d ∈ behind.head?, p d = false := by
  -- A character that a reader stops at has only those in its place that it stops at as well.
  obtain ⟨u, v, w, rfl, rfl, apart⟩ := parted
  cases u with
  | nil => exact apart.refused refuses
  | cons d u => exact stopped

theorem droppedStops (p : Char → Bool) (cs : List Char) :
    ∀ d ∈ (cs.dropWhile p).head?, p d = false := by
  have stops := List.head?_dropWhile_not p cs
  intro d first
  simpa [Option.mem_def.mp first] using stops

section
variable {p : Char → Bool} {behind : List Char} (refused : ∀ d ∈ behind.head?, p d = false)
include refused

theorem takenAgain (cs : List Char) : (cs.takeWhile p ++ behind).takeWhile p = cs.takeWhile p := by
  rw [List.takeWhile_append_of_pos (List.all_eq_true.mp List.all_takeWhile)]
  cases behind with
  | nil => simp
  | cons d rest => simp [refused d rfl]

theorem droppedAgain (cs : List Char) : (cs.takeWhile p ++ behind).dropWhile p = behind := by
  have whole := List.takeWhile_append_dropWhile (p := p) (l := cs.takeWhile p ++ behind)
  rw [takenAgain refused] at whole
  exact List.append_cancel_left whole

end

theorem noEscape {c : Char} {rest : List Char} (ends : c = '\\' → rest = [] → False)
    (escapes : ∀ e more, c = '\\' → rest = e :: more → False) : c ≠ '\\' := by
  -- Neither a lone backslash nor one with a character behind it.
  intro escape
  cases rest with
  | nil => exact ends escape rfl
  | cons e more => exact escapes e more escape rfl

theorem stringBodyBefore {cs : List Char} {b : Body} (read : stringBody cs = .ok b)
    (behind : List Char) : stringBody (b.text ++ behind) = .ok ⟨b.content, b.text, behind⟩ := by
  fun_induction stringBody cs generalizing b with
  | case1 | case3 | case4 | case6 => cases read
  | case2 => cases read; rfl
  | case5 e rest c escape ih =>
    obtain ⟨inner, found, rfl⟩ := Body.extend_ok read
    simp [stringBody, escape, ih found, Body.extend]
  | case7 c rest quote ends escapes newline ih =>
    obtain ⟨inner, found, rfl⟩ := Body.extend_ok read
    simp [stringBody, noEscape ends escapes, ih found, Body.extend]

theorem readStringBefore {cs : List Char} {r : Reading} (read : readString cs = .ok r)
    (behind : List Char) :
    ∃ more, r.text = '"' :: more ∧ readString (more ++ behind) = .ok (r.before behind) := by
  unfold readString at read
  split at read <;> cases read
  rename_i b body
  exact ⟨b.text, rfl, by simp [readString, stringBodyBefore body, Reading.before]⟩

theorem closeCharBefore {c : Char} {text cs : List Char} {r : Reading}
    (read : closeChar c text cs = .ok r) (behind : List Char) :
    r.text = text ++ ['\''] ∧ closeChar c text ('\'' :: behind) = .ok (r.before behind) := by
  unfold closeChar at read
  split at read <;> cases read
  exact ⟨rfl, rfl⟩

theorem readCharBefore {cs : List Char} {r : Reading} (read : readChar cs = .ok r)
    (behind : List Char) :
    ∃ more, r.text = '\'' :: more ∧ readChar (more ++ behind) = .ok (r.before behind) := by
  fun_cases readChar cs with
  | case1 | case2 | case3 | case5 => simp_all [readChar]
  | case4 e rest c escape =>
    simp only [readChar, escape] at read
    obtain ⟨text, closes⟩ := closeCharBefore read behind
    exact ⟨'\\' :: e :: ['\''], text, by simp [readChar, escape, closes]⟩
  | case6 c rest ends escapes other =>
    simp only [readChar, other, if_false] at read
    obtain ⟨text, closes⟩ := closeCharBefore read behind
    exact ⟨c :: ['\''], text, by simp [readChar, noEscape ends escapes, other, closes]⟩

theorem numeralStops {dotted : Bool} {rest behind : List Char} (parted : Parted rest behind)
    (stopped : numeral dotted rest = []) : numeral dotted behind = [] := by
  obtain ⟨u, v, w, rfl, rfl, apart⟩ := parted
  cases u with
  | nil =>
    have noDigit := apart.refused (p := fun d => d.isDigit || d = '_') (by decide)
    have noPoint := apart.refused (p := (· = '.')) (by decide)
    cases w with
    | nil => rfl
    | cons d w => simp [numeral, noDigit d rfl, of_decide_eq_false (noPoint d rfl)]
  | cons d u =>
    -- A point that is not followed by a digit gets none behind it.
    have digit (next : (u ++ w).head?.any Char.isDigit) : (u ++ v).head?.any Char.isDigit := by
      cases u with
      | nil =>
        have noDigit := apart.refused (p := Char.isDigit) (by decide)
        cases w with
        | nil => cases next
        | cons e w => exact absurd next (by simpa using noDigit e rfl)
      | cons e u => exact next
    simp only [List.cons_append, numeral, Bool.and_eq_true] at stopped ⊢
    split at stopped
    · cases stopped
    · rename_i other
      split at stopped
      · cases stopped
      · rename_i point
        rw [if_neg other, if_neg fun all => point ⟨all.1, digit all.2⟩]

theorem numeralBefore {dotted : Bool} {cs behind : List Char}
    (parted : Parted (cs.drop (numeral dotted cs).length) behind) :
    numeral dotted (numeral dotted cs ++ behind) = numeral dotted cs := by
  fun_induction numeral dotted cs with
  | case1 => exact numeralStops parted rfl
  | case4 dotted c rest other point =>
    exact numeralStops parted (by rw [List.length_nil, List.drop_zero, numeral]; simp [other, point])
  | case2 dotted c rest digit ih => simp [numeral, digit, ih parted]
  | case3 dotted c rest other point ih =>
    -- The digit behind the point is taken too, so it is there when the point is read again.
    have digit : (numeral true rest ++ behind).head?.any Char.isDigit := by
      cases rest with
      | nil => simp at point
      | cons e rest =>
        simp only [List.head?_cons, Option.any_some, Bool.and_eq_true] at point
        simp [numeral, point.2]
    simp only [Bool.and_eq_true] at point
    simp only [List.cons_append, numeral, other, point.1, digit, ih parted, Bool.and_self, if_true,
      Bool.false_eq_true, if_false]

theorem numeralNoHex {x : Char} (hex : x ∉ endings) {dotted : Bool} {cs behind : List Char}
    (parted : Parted (cs.drop (numeral dotted cs).length) behind) (other : cs.head? ≠ some x) :
    (numeral dotted cs ++ behind).head? ≠ some x := by
  -- No mark of a hexadecimal number comes up where there was none.
  have whole := numeral_append_drop dotted cs
  cases text : numeral dotted cs with
  | nil =>
    rw [text] at parted
    obtain ⟨u, v, w, rfl, rfl, apart⟩ := parted
    cases u with
    | nil => exact fun first => hex (apart x first)
    | cons d u => exact other
  | cons d more =>
    rw [text] at whole
    rw [← whole] at other
    exact other

theorem readDecimalBefore {cs behind : List Char} {r : Reading} (read : readDecimal cs = .ok r)
    (parted : Parted r.rest behind) : r.text = numeral false cs ∧
      readDecimal (r.text ++ behind) = .ok (r.before behind) := by
  unfold readDecimal at read
  simp only at read
  split at read
  · cases read
    simp_all [readDecimal, numeralBefore parted, Reading.before]
  · split at read <;> cases read
    simp_all [readDecimal, numeralBefore parted, Reading.before]

theorem readHexBefore {x : Char} {cs behind : List Char} {r : Reading} (read : readHex x cs = .ok r)
    (parted : Parted r.rest behind) :
    ∃ more, r.text = '0' :: x :: more ∧ readHex x (more ++ behind) = .ok (r.before behind) := by
  unfold readHex at read
  simp only at read
  split at read
  · cases read
  · rename_i some
    split at read <;> cases read
    rename_i n small
    have refused := parted.refused (p := isHexDigit) (by decide) (droppedStops isHexDigit cs)
    refine ⟨cs.takeWhile isHexDigit, rfl, ?_⟩
    simp only [readHex, takenAgain refused, droppedAgain refused, small]
    simp [some, Reading.before]

theorem readNumberBefore {c : Char} {cs behind : List Char} {r : Reading} (digit : c.isDigit)
    (read : readNumber (c :: cs) = .ok r) (parted : Parted r.rest behind) :
    ∃ more, r.text = c :: more ∧ readNumber (c :: (more ++ behind)) = .ok (r.before behind) := by
  have split := readNumber_split read
  unfold readNumber at read
  split at read
  · rename_i same
    cases same
    obtain ⟨more, text, again⟩ := readHexBefore read parted
    exact ⟨_, text, again⟩
  · rename_i same
    cases same
    obtain ⟨more, text, again⟩ := readHexBefore read parted
    exact ⟨_, text, again⟩
  · rename_i noLower noUpper
    obtain ⟨text, again⟩ := readDecimalBefore read parted
    have first : r.text = c :: numeral false cs := by simp [text, numeral, digit]
    have left : r.rest = cs.drop (numeral false cs).length := by
      have whole := numeral_append_drop false cs
      rw [first, List.cons_append, List.cons.injEq] at split
      exact List.append_cancel_left (split.2.trans whole.symm)
    rw [left] at parted
    refine ⟨_, first, ?_⟩
    rw [first, List.cons_append] at again
    have noHex (x : Char) (hex : x ∉ endings) (here : ∀ rest, c :: cs ≠ '0' :: x :: rest)
        (rest : List Char) : c :: (numeral false cs ++ behind) ≠ '0' :: x :: rest := by
      intro same
      rw [List.cons.injEq] at same
      obtain ⟨rfl, same⟩ := same
      refine numeralNoHex hex parted (fun first => ?_) (by rw [same, List.head?_cons])
      obtain ⟨more, rfl⟩ := List.head?_eq_some_iff.mp first
      exact here more rfl
    rw [readNumber.eq_3]
    · exact again
    · exact noHex 'x' (by decide) noLower
    · exact noHex 'X' (by decide) noUpper

def spelled (n : Nat) (cs : List Char) : Option (List Char × Token) :=
  spellings.find? fun s => s.1 = cs.take n ∧ s.1.length = n

theorem readSymbolSpelled (cs : List Char) : readSymbol cs =
    (((spelled 3 cs).or (spelled 2 cs)).or (spelled 1 cs)).map fun s =>
      ⟨s.2, s.1, cs.drop s.1.length⟩ := by
  have ofLength (n : Nat) (s : List Char × Token) :
      s.1.isPrefixOf cs ∧ decide (s.1.length = n) ↔ s.1 = cs.take n ∧ s.1.length = n := by
    simp only [List.isPrefixOf_iff_prefix, List.prefix_iff_eq_take, decide_eq_true_eq]
    constructor <;> rintro ⟨starts, rfl⟩ <;> exact ⟨starts, rfl⟩
  simp only [readSymbol, spelled, List.find?_filter, ofLength]

theorem spelledStarts {n : Nat} {cs : List Char} {s : List Char × Token}
    (found : spelled n cs = some s) : s.1 = cs.take n ∧ s.1.length = n := by
  simpa using List.find?_some found

theorem spellingsPlain {s : List Char × Token} (held : s ∈ spellings) : ∀ d ∈ s.1, d ∉ endings := by
  have all : spellings.all fun s => s.1.all (· ∉ endings) := by decide +kernel
  simpa using List.all_eq_true.mp all s held

theorem spelledShort {n : Nat} {text behind : List Char} (apart : Apart behind)
    (long : text.length < n) : spelled n (text ++ behind) = none := by
  -- No spelling reaches past the end of what it is looked for in.
  rw [spelled, List.find?_eq_none]
  intro s held
  simp only [decide_eq_true_eq, not_and]
  intro starts length
  cases behind with
  | nil =>
    have := congrArg List.length starts
    simp at this
    omega
  | cons d rest =>
    obtain ⟨k, rfl⟩ := Nat.exists_eq_add_of_lt long
    have inside : d ∈ s.1 := by simp [starts, List.take_append, Nat.add_assoc]
    exact spellingsPlain held d inside (apart d rfl)

theorem spelledParted {n : Nat} {text rest behind : List Char} (parted : Parted rest behind)
    (none : spelled n (text ++ rest) = none) : spelled n (text ++ behind) = .none := by
  obtain ⟨u, v, w, rfl, rfl, apart⟩ := parted
  rw [← List.append_assoc] at none ⊢
  by_cases short : n ≤ (text ++ u).length
  · rwa [spelled, List.take_append_of_le_length short] at none ⊢
  · exact spelledShort apart (Nat.lt_of_not_le short)

theorem spelledBefore {n : Nat} {cs : List Char} {s : List Char × Token}
    (found : spelled n cs = some s) (behind : List Char) :
    spelled n (s.1 ++ behind) = some s := by
  obtain ⟨starts, length⟩ := spelledStarts found
  rw [← found, spelled, spelled, ← length, List.take_left, length, ← starts]

theorem readSymbolBefore {cs behind : List Char} {r : Reading} (read : readSymbol cs = some r)
    (parted : Parted r.rest behind) : readSymbol (r.text ++ behind) = some (r.before behind) := by
  have split := readSymbol_split read
  rw [readSymbolSpelled] at read ⊢
  obtain ⟨s, found, rfl⟩ := Option.map_eq_some_iff.mp read
  have longer (n : Nat) (none : spelled n cs = none) : spelled n (s.1 ++ behind) = .none :=
    spelledParted parted (split.symm ▸ none)
  simp only [Option.or_eq_some_iff, Option.or_eq_none_iff] at found
  rcases found with (found | ⟨three, found⟩) | ⟨⟨three, two⟩, found⟩
  · simp [spelledBefore found behind, Reading.before]
  · simp [spelledBefore found behind, longer 3 three, Reading.before]
  · simp [spelledBefore found behind, longer 3 three, longer 2 two, Reading.before]

theorem readTokenBefore {c : Char} {cs behind : List Char} {r : Reading}
    (read : readToken c cs = .ok r) (parted : Parted r.rest behind)
    (line : c = '#' → ∀ d ∈ behind.head?, d = '\n') :
    ∃ more, r.text = c :: more ∧ readToken c (more ++ behind) = .ok (r.before behind) := by
  unfold readToken at read
  split at read
  · cases read
    exact ⟨[], by simp [*], by simp [*, readToken, Reading.before]⟩
  split at read
  · rename_i mark
    cases read
    have refused : ∀ d ∈ behind.head?, decide (d ≠ '\n') = false := fun d first => by
      simpa using line mark d first
    refine ⟨cs.takeWhile (· ≠ '\n'), by simp [mark], ?_⟩
    simp only [readToken, takenAgain refused, droppedAgain refused]
    simp [*, Reading.before]
  split at read
  · rename_i mark
    obtain ⟨more, text, again⟩ := readStringBefore read behind
    exact ⟨more, mark ▸ text, by simp [readToken, *]⟩
  split at read
  · rename_i mark
    obtain ⟨more, text, again⟩ := readCharBefore read behind
    exact ⟨more, mark ▸ text, by simp [readToken, *]⟩
  split at read
  · rename_i digit
    obtain ⟨more, text, again⟩ := readNumberBefore digit read parted
    exact ⟨more, text, by simp [readToken, *]⟩
  split at read
  · cases read
    have refused := parted.refused (p := isNamePart) (by decide) (droppedStops isNamePart cs)
    refine ⟨cs.takeWhile isNamePart, rfl, ?_⟩
    simp only [readToken, takenAgain refused, droppedAgain refused]
    simp [*, Reading.before]
  split at read
  · cases read
    rename_i found
    have split := readSymbol_split found
    have again := readSymbolBefore found parted
    cases text : r.text with
    | nil => exact absurd text (readSymbol_text_ne_nil found)
    | cons d more =>
      rw [text] at split again
      cases split
      exact ⟨more, rfl, by simp_all [readToken]⟩
  · cases read

end Quill.Lexer
