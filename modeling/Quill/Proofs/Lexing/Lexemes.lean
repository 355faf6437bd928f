import Mathlib.Data.List.Chain
import Quill.Proofs.Lexing.Strings

/-! Tokens as they are ordinarily written. A lexeme is read alone and in front of everything that
does not go on with it, so tokens in a row are read back if a blank stands between any two that would
run together. -/
namespace Quill.Lexer

def reserved : List String := ["true", "false", "none"] ++ Keyword.all.map Keyword.text

inductive Lexeme : Token → List Char → Prop where
  | symbol (s : Symbol) : Lexeme (.symbol s) s.text.toList
  | keyword (k : Keyword) : Lexeme (.keyword k) k.text.toList
  | none : Lexeme .none "none".toList
  | bool (b : Bool) : Lexeme (.bool b) (toString b).toList
  | ident {c : Char} {cs : List Char} (starts : isNameStart c) (goesOn : cs.all isNamePart)
      (free : String.ofList (c :: cs) ∉ reserved) : Lexeme (.ident (String.ofList (c :: cs))) (c :: cs)
  | integer {n : Nat} (small : n < 1 <<< 63) :
      Lexeme (.integer (Int64.ofNat n)) (Nat.toDigits 10 n)
  | float {whole part : List Char} (wholes : whole ≠ []) (parts : part ≠ [])
      (digits : ∀ d ∈ whole ++ part, d.isDigit) :
      Lexeme (.float (Float.ofScientific (Nat.ofDigitChars 10 (whole ++ part) 0) true part.length))
        (whole ++ '.' :: part)
  | string {content text : List Char} (quotes : Quotes content text) :
      Lexeme (.string (String.ofList content)) ('"' :: (text ++ ['"']))
  | char {c : Char} (plain : c ∉ ['\n', '\\', '\'']) : Lexeme (.char c) ['\'', c, '\'']
  | escaped {c e : Char} (known : escapeOf? c = some e) : Lexeme (.char c) ['\'', '\\', e, '\'']

def continues : Token → Char → Bool
  | .symbol s, d => spellings.any fun p => (s.text.toList ++ [d]).isPrefixOf p.1
  | .string _, _ | .char _, _ => false
  | .integer _, d | .float _, d => isNamePart d || d = '.'
  | _, d => isNamePart d

def Clear (t : Token) (behind : List Char) : Prop := ∀ d ∈ behind.head?, continues t d = false

theorem digitRange {d : Char} (digit : d.isDigit) : 0x30 ≤ d.toNat ∧ d.toNat ≤ 0x39 := by
  simpa [Char.isDigit, UInt32.le_iff_toNat_le] using digit

theorem digitPart {d : Char} (digit : d.isDigit) : isNamePart d := by
  have range := digitRange digit
  have numeric : Text.isNumeric d = true := by
    rw [Text.isNumeric, Text.numericRanges, Text.within, if_neg (by omega),
      decide_eq_true range.2, Bool.true_or]
  simp [isNamePart, Text.isAlphanumeric, numeric]

theorem digitNoName {d : Char} (digit : d.isDigit) : isNameStart d = false := by
  have range := digitRange digit
  have letter : Text.isAlphabetic d = false := by
    rw [Text.isAlphabetic, Text.alphabeticRanges, Text.within, if_pos (by omega)]
  have underscore : d ≠ '_' := by
    rintro rfl
    exact absurd digit (by decide)
  simp [isNameStart, letter, underscore]

/-! Words. -/

theorem wordFree {name : String} (free : name ∉ reserved) : word name = .ident name := by
  simp only [reserved, List.mem_append, List.mem_cons, List.not_mem_nil, or_false, not_or] at free
  obtain ⟨⟨truth, falsity, nothing⟩, keyword⟩ := free
  have unknown : Keyword.all.find? (·.text = name) = .none := by
    refine List.find?_eq_none.mpr fun k held same => keyword ?_
    exact List.mem_map.mpr ⟨k, held, of_decide_eq_true same⟩
  simp [word, unknown]

theorem wordKeyword (k : Keyword) : word k.text = .keyword k := by cases k <;> decide

def WordLike (text : List Char) : Prop :=
  ∃ c cs, text = c :: cs ∧ isNameStart c ∧ cs.all isNamePart

theorem keywordWord (k : Keyword) : WordLike k.text.toList := by
  cases k <;> exact ⟨_, _, rfl, by decide, by decide⟩

variable {behind : List Char}

theorem wordRead {text : List Char} (like : WordLike text)
    (clear : ∀ d ∈ behind.head?, isNamePart d = false) :
    ∃ c more, text = c :: more ∧ ¬ isBlank c ∧
      readToken c (more ++ behind) = .ok ⟨word (String.ofList text), text, behind⟩ := by
  obtain ⟨c, cs, rfl, starts, goesOn⟩ := like
  have other (d : Char) (no : isNameStart d = false) : c ≠ d := by
    rintro rfl
    exact absurd starts (by simp [no])
  have digit : ¬ c.isDigit := fun digit => by
    rw [digitNoName digit] at starts
    cases starts
  have blank : ¬ isBlank c := by
    simp [isBlank, other ' ' (by decide), other '\t' (by decide), other '\r' (by decide)]
  have whole : cs.takeWhile isNamePart = cs := List.takeWhile_eq_self_iff.mpr (List.all_eq_true.mp goesOn)
  have taken := takenAgain clear cs
  have dropped := droppedAgain clear cs
  rw [whole] at taken dropped
  refine ⟨c, cs, rfl, blank, ?_⟩
  rw [readToken, if_neg (other _ (by decide)), if_neg (other _ (by decide)),
    if_neg (other _ (by decide)), if_neg (other _ (by decide)), if_neg digit, if_pos starts, taken,
    dropped]

/-! Numbers. -/

def EndsNumber (behind : List Char) : Prop := ∀ d ∈ behind.head?, (isNamePart d || d = '.') = false

theorem EndsNumber.numeral (ends : EndsNumber behind) (dotted : Bool) :
    numeral dotted behind = [] := by
  cases behind with
  | nil => rfl
  | cons d rest =>
    obtain ⟨part, point⟩ := Bool.or_eq_false_iff.mp (ends d rfl)
    have digit : d.isDigit = false := by
      refine Bool.eq_false_iff.mpr fun digit => ?_
      cases (digitPart digit).symm.trans part
    have underscore : d ≠ '_' := by
      rintro rfl
      exact absurd part (by decide)
    simp [Lexer.numeral, digit, underscore, of_decide_eq_false point]

theorem numeralAppend {digits : List Char} (all : ∀ d ∈ digits, d.isDigit) (dotted : Bool)
    (more : List Char) : numeral dotted (digits ++ more) = digits ++ numeral dotted more := by
  induction digits with
  | nil => rfl
  | cons d digits ih =>
    obtain ⟨digit, others⟩ := List.forall_mem_cons.mp all
    simp [numeral, digit, ih others]

theorem numberInDecimal {digits : List Char} (all : ∀ d ∈ digits, d.isDigit) :
    numberIn 10 digits = Nat.ofDigitChars 10 digits 0 := by
  unfold numberIn Nat.ofDigitChars
  refine List.foldl_ext _ _ _ fun n d held => ?_
  rw [hexValue, if_pos (all d held), Nat.mul_comm]

theorem digitNe {d e : Char} (digit : d.isDigit) (other : e.isDigit = false) : d ≠ e := by
  rintro rfl
  cases digit.symm.trans other

theorem digitsPlain {digits : List Char} (all : ∀ d ∈ digits, d.isDigit) :
    digits.filter (· ≠ '_') = digits ∧ '.' ∉ digits := by
  constructor
  · refine List.filter_eq_self.mpr fun d held => decide_eq_true ?_
    exact digitNe (all d held) (by decide)
  · exact fun held => absurd (all _ held) (by decide)

theorem numberRead {text : List Char} {r : Reading} (nonempty : text ≠ [])
    (first : ∀ d ∈ text.head?, d.isDigit) (numeric : ∀ d ∈ text, d.isDigit ∨ d = '.')
    (ends : EndsNumber behind) (read : readDecimal (text ++ behind) = .ok r) :
    ∃ c more, text = c :: more ∧ ¬ isBlank c ∧ readToken c (more ++ behind) = .ok r := by
  obtain ⟨c, cs, rfl⟩ := List.exists_cons_of_ne_nil nonempty
  have digit : c.isDigit := first c rfl
  have blank : ¬ isBlank c := by
    simp [isBlank, digitNe (e := ' ') digit, digitNe (e := '\t') digit, digitNe (e := '\r') digit]
  have noHex (x : Char) (hex : x = 'x' ∨ x = 'X') (rest : List Char) :
      c :: (cs ++ behind) ≠ '0' :: x :: rest := by
    intro same
    rw [List.cons.injEq] at same
    cases cs with
    | nil =>
      have stop := ends x (by rw [show behind = x :: rest from same.2]; rfl)
      rcases hex with rfl | rfl <;> exact absurd stop (by decide)
    | cons d cs =>
      obtain rfl : d = x := (List.cons.inj same.2).1
      have here := numeric d (by simp)
      rcases hex with rfl | rfl <;> exact absurd here (by decide)
  refine ⟨c, cs, rfl, blank, ?_⟩
  rw [readToken, if_neg (digitNe digit (by decide)), if_neg (digitNe digit (by decide)),
    if_neg (digitNe digit (by decide)), if_neg (digitNe digit (by decide)), if_pos digit,
    readNumber.eq_3 _ (noHex 'x' (.inl rfl)) (noHex 'X' (.inr rfl))]
  exact read

theorem decimalDigits (n : Nat) : ∀ d ∈ Nat.toDigits 10 n, d.isDigit := fun _ held =>
  Nat.isDigit_of_mem_toDigits (by decide) (by decide) held

theorem integerRead {n : Nat} (small : n < 1 <<< 63) (ends : EndsNumber behind) :
    readDecimal (Nat.toDigits 10 n ++ behind) =
      .ok ⟨.integer (Int64.ofNat n), Nat.toDigits 10 n, behind⟩ := by
  have all := decimalDigits n
  obtain ⟨plain, noPoint⟩ := digitsPlain all
  have text : numeral false (Nat.toDigits 10 n ++ behind) = Nat.toDigits 10 n := by
    rw [numeralAppend all, ends.numeral, List.append_nil]
  have value : word? (numberIn 10 (Nat.toDigits 10 n)) = some (Int64.ofNat n) := by
    rw [numberInDecimal all, Nat.ofDigitChars_ten_toDigits, word?, if_pos small]
  simp only [readDecimal, text, plain, if_neg noPoint, value, List.drop_left]

theorem floatRead {whole part : List Char} (parts : part ≠ [])
    (digits : ∀ d ∈ whole ++ part, d.isDigit) (ends : EndsNumber behind) :
    readDecimal (whole ++ '.' :: part ++ behind) =
      .ok ⟨.float (Float.ofScientific (Nat.ofDigitChars 10 (whole ++ part) 0) true part.length),
        whole ++ '.' :: part, behind⟩ := by
  obtain ⟨wholeDigits, partDigits⟩ := List.forall_mem_append.mp digits
  obtain ⟨wholePlain, wholeNoPoint⟩ := digitsPlain wholeDigits
  obtain ⟨partPlain, -⟩ := digitsPlain partDigits
  have first : (part ++ behind).head?.any Char.isDigit := by
    obtain ⟨d, rest, rfl⟩ := List.exists_cons_of_ne_nil parts
    simp [partDigits d List.mem_cons_self]
  have text : numeral false (whole ++ '.' :: part ++ behind) = whole ++ '.' :: part := by
    rw [List.append_assoc, List.cons_append, numeralAppend wholeDigits, numeral,
      if_neg (by decide), if_pos (by simpa using first), numeralAppend partDigits, ends.numeral,
      List.append_nil]
  have noPoint : ∀ d ∈ whole, decide (d ≠ '.') = true := fun d held =>
    decide_eq_true (digitNe (wholeDigits d held) (by decide))
  have plain : (whole ++ '.' :: part).filter (· ≠ '_') = whole ++ '.' :: part := by
    rw [List.filter_append, List.filter_cons_of_pos (by decide), wholePlain, partPlain]
  have value : decimalValue (whole ++ '.' :: part) =
      Float.ofScientific (Nat.ofDigitChars 10 (whole ++ part) 0) true part.length := by
    rw [decimalValue, List.takeWhile_append_of_pos noPoint, List.dropWhile_append_of_pos noPoint,
      List.takeWhile_cons_of_neg (by decide), List.dropWhile_cons_of_neg (by decide),
      List.append_nil, List.drop_succ_cons, List.drop_zero, numberInDecimal digits]
  have pointed : '.' ∈ whole ++ '.' :: part := by simp
  simp only [readDecimal, text, plain, if_pos pointed, value, List.drop_left]

/-! Symbols. -/

theorem symbolStarts (s : Symbol) : ∃ c cs, s.text.toList = c :: cs ∧ ¬ isBlank c ∧
    c ∉ ['\n', '#', '"', '\''] ∧ ¬ c.isDigit ∧ ¬ isNameStart c := by
  cases s <;> exact ⟨_, _, rfl, by decide⟩

theorem symbolShort (s : Symbol) : s.text.toList.length = 1 ∨ s.text.toList.length = 2 := by
  cases s <;> decide

theorem spelledOwn (s : Symbol) :
    spelled s.text.toList.length s.text.toList = some (s.text.toList, .symbol s) := by
  cases s <;> decide +kernel

theorem spelledClear {s : Symbol} (clear : Clear (.symbol s) behind) {n : Nat}
    (long : s.text.toList.length < n) : spelled n (s.text.toList ++ behind) = .none := by
  rw [spelled, List.find?_eq_none]
  intro p held
  simp only [decide_eq_true_eq, not_and]
  intro starts length
  cases behind with
  | nil =>
    have same := congrArg List.length starts
    rw [List.append_nil, List.length_take] at same
    omega
  | cons d rest =>
    refine List.any_eq_false.mp (clear d rfl) p held (List.isPrefixOf_iff_prefix.mpr ?_)
    generalize s.text.toList = text at starts long ⊢
    obtain ⟨k, rfl⟩ := Nat.exists_eq_add_of_lt long
    exact ⟨rest.take k, by rw [starts, Nat.add_assoc, List.take_length_add_append]; simp⟩

theorem symbolRead (s : Symbol) (clear : Clear (.symbol s) behind) :
    readSymbol (s.text.toList ++ behind) = some ⟨.symbol s, s.text.toList, behind⟩ := by
  have own := spelledBefore (spelledOwn s) behind
  rw [readSymbolSpelled]
  rcases symbolShort s with short | short
  · rw [short] at own
    simp [own, spelledClear clear (n := 3) (by omega), spelledClear clear (n := 2) (by omega)]
  · rw [short] at own
    simp [own, spelledClear clear (n := 3) (by omega)]

theorem lexemeRead {t : Token} {text : List Char} (lexeme : Lexeme t text) (clear : Clear t behind) :
    ∃ c more, text = c :: more ∧ ¬ isBlank c ∧
      readToken c (more ++ behind) = .ok ⟨t, text, behind⟩ := by
  cases lexeme with
  | symbol s =>
    obtain ⟨c, cs, text, blank, mark, digit, name⟩ := symbolStarts s
    simp only [List.mem_cons, List.not_mem_nil, or_false, not_or] at mark
    have read := symbolRead s clear
    rw [text, List.cons_append] at read
    refine ⟨c, cs, text, blank, ?_⟩
    rw [readToken, if_neg mark.1, if_neg mark.2.1, if_neg mark.2.2.1, if_neg mark.2.2.2,
      if_neg digit, if_neg name, read, text]
  | keyword k =>
    have read := wordRead (keywordWord k) clear
    rwa [String.ofList_toList, wordKeyword] at read
  | none => exact wordRead ⟨_, _, rfl, by decide, by decide⟩ clear
  | bool b => cases b <;> exact wordRead ⟨_, _, rfl, by decide, by decide⟩ clear
  | ident starts goesOn free =>
    have read := wordRead ⟨_, _, rfl, starts, goesOn⟩ clear
    rwa [wordFree free] at read
  | @integer n small =>
    have digits := decimalDigits n
    exact numberRead Nat.toDigits_ne_nil (fun d first => digits d (List.mem_of_head? first))
      (fun d held => .inl (digits d held)) clear (integerRead small clear)
  | float wholes parts digits =>
    obtain ⟨wholeDigits, partDigits⟩ := List.forall_mem_append.mp digits
    refine numberRead (by simp) (fun d first => ?_) (fun d held => ?_) clear
      (floatRead parts digits clear)
    · rw [List.head?_append_of_ne_nil _ wholes] at first
      exact wholeDigits d (List.mem_of_head? first)
    · rcases List.mem_append.mp held with held | held
      · exact .inl (wholeDigits d held)
      · exact (List.mem_cons.mp held).symm.imp_left (partDigits d)
  | string quotes =>
    refine ⟨'"', _, rfl, by decide, ?_⟩
    rw [List.append_assoc]
    simp [readToken, readString, quotes.body behind]
  | char plain =>
    simp only [List.mem_cons, List.not_mem_nil, or_false, not_or] at plain
    refine ⟨'\'', _, rfl, by decide, ?_⟩
    simp [readToken, readChar, plain, closeChar]
  | escaped known =>
    refine ⟨'\'', _, rfl, by decide, ?_⟩
    simp [readToken, readChar, escapedOf.mpr known, closeChar]

/-! Tokens in a row. -/

def mayTouch : Token → Token → Bool
  | .symbol s, .symbol t =>
    spellings.all fun p => !(s.text.toList ++ t.text.toList.take 1).isPrefixOf p.1
  | .symbol _, _ | .string _, _ | .char _, _ => true
  | _, .symbol s => s ≠ .dot
  | _, .string _ | _, .char _ => true
  | _, _ => false

def Begins : Token → Char → Prop
  | .symbol s, d => s.text.toList.head? = some d
  | .string _, d => d = '"'
  | .char _, d => d = '\''
  | _, d => isNamePart d

theorem nameStartPart {c : Char} (starts : isNameStart c) : isNamePart c := by
  simp only [isNameStart, Bool.or_eq_true] at starts
  simp only [isNamePart, Text.isAlphanumeric, Bool.or_eq_true]
  exact starts.imp_left .inl

theorem WordLike.begins {text : List Char} (like : WordLike text) :
    ∀ d ∈ text.head?, isNamePart d := by
  obtain ⟨c, cs, rfl, starts, -⟩ := like
  rintro _ ⟨⟩
  exact nameStartPart starts

theorem lexemeBegins {t : Token} {text : List Char} (lexeme : Lexeme t text) :
    ∀ d ∈ text.head?, Begins t d := by
  cases lexeme with
  | symbol s => exact fun d first => first
  | keyword k => exact (keywordWord k).begins
  | none => exact WordLike.begins ⟨_, _, rfl, by decide, by decide⟩
  | bool b => cases b <;> exact WordLike.begins ⟨_, _, rfl, by decide, by decide⟩
  | ident starts goesOn free => exact WordLike.begins ⟨_, _, rfl, starts, goesOn⟩
  | integer small => exact fun d first => digitPart (decimalDigits _ d (List.mem_of_head? first))
  | float wholes parts digits =>
    intro d first
    rw [List.head?_append_of_ne_nil _ wholes] at first
    exact digitPart (digits d (List.mem_append_left _ (List.mem_of_head? first)))
  | string | char | escaped =>
    rintro _ ⟨⟩
    rfl

theorem spellingsMarks {p : List Char × Token} (held : p ∈ spellings) :
    ∀ d ∈ p.1, isNamePart d = false ∧ d ≠ '"' ∧ d ≠ '\'' := by
  have all : spellings.all fun p =>
    p.1.all fun d => isNamePart d = false ∧ d ≠ '"' ∧ d ≠ '\'' := by decide +kernel
  simpa using List.all_eq_true.mp all p held

theorem symbolContinues (s : Symbol) {d : Char} (foreign : ∀ p ∈ spellings, d ∉ p.1) :
    continues (.symbol s) d = false := by
  refine List.any_eq_false.mpr fun p held starts => foreign p held ?_
  exact (List.isPrefixOf_iff_prefix.mp starts).subset (by simp)

theorem symbolMark {s : Symbol} (noPoint : s ≠ .dot) :
    ∀ d ∈ s.text.toList.head?, (isNamePart d || d = '.') = false := by
  cases s <;> first | exact absurd rfl noPoint | (rintro _ ⟨⟩; decide)

theorem otherContinues {t : Token} (other : ∀ s, t ≠ .symbol s) {d : Char}
    (mark : (isNamePart d || d = '.') = false) : continues t d = false := by
  have part := (Bool.or_eq_false_iff.mp mark).1
  cases t with
  | symbol s => exact absurd rfl (other s)
  | string | char => rfl
  | integer | float => exact mark
  | _ => exact part

theorem touchContinues {t u : Token} (touch : mayTouch t u) {d : Char} (begins : Begins u d) :
    continues t d = false := by
  cases t with
  | symbol s =>
    cases u with
    | symbol t =>
      refine List.any_eq_false.mpr fun p held starts => ?_
      have apart := List.all_eq_true.mp touch p held
      obtain ⟨cs, text⟩ := List.head?_eq_some_iff.mp begins
      rw [text, List.take_succ_cons, List.take_zero, starts] at apart
      cases apart
    | _ =>
      refine symbolContinues s fun p held inside => ?_
      obtain ⟨part, quote, tick⟩ := spellingsMarks held d inside
      first | cases part.symm.trans begins | exact quote begins | exact tick begins
  | string | char => rfl
  | _ =>
    refine otherContinues (fun _ same => by cases same) ?_
    cases u with
    | symbol t => exact symbolMark (of_decide_eq_true touch) d begins
    | string | char =>
      cases begins
      decide
    | _ => cases touch

theorem blankContinues (t : Token) {d : Char} (blank : isBlank d) : continues t d = false := by
  have ending := blankEnds blank
  by_cases symbol : ∃ s, t = .symbol s
  · obtain ⟨s, rfl⟩ := symbol
    exact symbolContinues s fun p held inside => spellingsPlain held d inside ending
  · refine otherContinues (fun s same => symbol ⟨s, same⟩) ?_
    have plain : endings.all fun d => (isNamePart d || d = '.') = false := by decide
    exact of_decide_eq_true (List.all_eq_true.mp plain d ending)

inductive Written (gap : Token → Option Token → List Char) : List Token → List Char → Prop where
  | nil : Written gap [] []
  | cons {t : Token} {ts : List Token} {text behind : List Char} (lexeme : Lexeme t text)
      (rest : Written gap ts behind) : Written gap (t :: ts) (text ++ (gap t ts.head? ++ behind))

def Spaced (gap : Token → Option Token → List Char) (t u : Token) : Prop :=
  gap t (some u) ≠ [] ∨ mayTouch t u

theorem Lexeme.nonempty {t : Token} {text : List Char} (lexeme : Lexeme t text) : text ≠ [] := by
  have clear : Clear t [] := nofun
  obtain ⟨c, more, rfl, -⟩ := lexemeRead lexeme clear
  nofun

section
variable {gap : Token → Option Token → List Char} {tokens : List Token} {text : List Char}

theorem Written.lexemes (written : Written gap tokens text) :
    ∀ t ∈ tokens, ∃ text, Lexeme t text := by
  induction written with
  | nil => nofun
  | cons lexeme rest ih => exact List.forall_mem_cons.mpr ⟨⟨_, lexeme⟩, ih⟩

variable (blank : ∀ t u, ∀ c ∈ gap t u, isBlank c)
include blank

theorem Written.clear {t : Token} (written : Written gap tokens text)
    (spaced : ∀ u ∈ tokens.head?, Spaced gap t u) : Clear t (gap t tokens.head? ++ text) := by
  intro d first
  cases between : gap t tokens.head? with
  | cons c cs =>
    rw [between] at first
    cases first
    exact blankContinues t (blank t tokens.head? _ (by simp [between]))
  | nil =>
    rw [between, List.nil_append] at first
    cases written with
    | nil => cases first
    | cons next rest =>
      have touch := (spaced _ rfl).resolve_left (· between)
      rw [List.head?_append_of_ne_nil _ next.nonempty] at first
      exact touchContinues touch (lexemeBegins next d first)

theorem Written.scanned (written : Written gap tokens text) (spaced : tokens.IsChain (Spaced gap))
    (place : Span) {blanks : List Char} (before : ∀ c ∈ blanks, isBlank c) :
    ∃ read, scan place (blanks ++ text) = .ok read ∧ read.map (·.token) = tokens ++ [.eof] := by
  induction written generalizing place blanks with
  | nil =>
    rw [List.append_nil]
    exact ⟨_, scanEnd before, rfl⟩
  | @cons t ts text behind lexeme rest ih =>
    obtain ⟨next, others⟩ := List.isChain_cons.mp spaced
    obtain ⟨c, more, rfl, full, reads⟩ := lexemeRead lexeme (rest.clear blank next)
    obtain ⟨read, scanned, tokens⟩ := ih others _ (blank t ts.head?)
    rw [List.cons_append, scanToken before full reads, scanned]
    exact ⟨_, rfl, congrArg (t :: ·) tokens⟩

theorem Written.lexed (written : Written gap tokens text) (spaced : tokens.IsChain (Spaced gap)) :
    ∃ read, lex (String.ofList text) = .ok read ∧ read.map (·.token) = tokens ++ [.eof] := by
  rw [lex, String.toList_ofList]
  exact written.scanned blank spaced .start (List.forall_mem_nil _)

end

end Quill.Lexer
