import Quill.Token
import Quill.Text.Classes

/-! Lexing: a source text is cut into blanks and lexemes, one lexeme to a token. Each reader gives
the characters it used beside the token they spell, so positions follow from the text alone. -/
namespace Quill

inductive LexCause where
  | unterminatedString
  | newlineInString
  | emptyChar
  | longChar
  | unknownEscape (c : Char)
  | endInEscape
  | noHexDigits
  | hexTooLarge (digits : String)
  | integerTooLarge (digits : String)
  | unexpected (c : Char)
  deriving DecidableEq, Repr

structure LexError where
  cause : LexCause
  span : Span
  deriving DecidableEq, Repr

def LexCause.message : LexCause → String
  | unterminatedString => "unterminated string literal"
  | newlineInString => "unterminated string (newline before closing quote)"
  | emptyChar => "empty character literal"
  | longChar => "character literal must contain exactly one character"
  | unknownEscape c => "unknown escape sequence: \\" ++ c.toString
  | endInEscape => "unexpected EOF in escape sequence"
  | noHexDigits => "expected hex digits after 0x"
  | hexTooLarge digits => "invalid hex number: 0x" ++ digits
  | integerTooLarge digits => "invalid integer: " ++ digits
  | unexpected c => "unexpected character: '" ++ c.toString ++ "'"

def LexError.message (e : LexError) : String := e.span.text ++ ": " ++ e.cause.message

namespace Lexer

structure Reading where
  token : Token
  text : List Char
  rest : List Char

inductive Place where
  | start
  | after (text : List Char)

structure Fault where
  cause : LexCause
  place : Place

def Place.from (s : Span) : Place → Span
  | start => s
  | after text => s.after text

def Fault.behind (text : List Char) : Fault → Fault
  | ⟨cause, .after inner⟩ => ⟨cause, .after (text ++ inner)⟩
  | fault => fault

def isBlank (c : Char) : Bool := c = ' ' || c = '\t' || c = '\r'

def isNameStart (c : Char) : Bool := Text.isAlphabetic c || c = '_'

def isNamePart (c : Char) : Bool := Text.isAlphanumeric c || c = '_'

def escaped? : Char → Option Char
  | 'n' => some '\n'
  | 't' => some '\t'
  | 'r' => some '\r'
  | '\\' => some '\\'
  | '"' => some '"'
  | '\'' => some '\''
  | '0' => some '\x00'
  | _ => none

structure Body where
  content : List Char
  text : List Char
  rest : List Char

def Body.extend (c : Char) (text : List Char) : Except Fault Body → Except Fault Body
  | .error fault => .error (fault.behind text)
  | .ok b => .ok ⟨c :: b.content, text ++ b.text, b.rest⟩

def stringBody : List Char → Except Fault Body
  | [] => .error ⟨.unterminatedString, .start⟩
  | '"' :: rest => .ok ⟨[], ['"'], rest⟩
  | '\\' :: [] => .error ⟨.endInEscape, .after ['\\']⟩
  | '\\' :: e :: rest =>
    match escaped? e with
    | none => .error ⟨.unknownEscape e, .after ['\\']⟩
    | some c => Body.extend c ['\\', e] (stringBody rest)
  | '\n' :: _ => .error ⟨.newlineInString, .start⟩
  | c :: rest => Body.extend c [c] (stringBody rest)

def closeChar (c : Char) (text : List Char) : List Char → Except Fault Reading
  | '\'' :: rest => .ok ⟨.char c, text ++ ['\''], rest⟩
  | _ => .error ⟨.longChar, .start⟩

def readChar : List Char → Except Fault Reading
  | [] => .error ⟨.emptyChar, .start⟩
  | '\\' :: [] => .error ⟨.endInEscape, .after ['\'', '\\']⟩
  | '\\' :: e :: rest =>
    match escaped? e with
    | none => .error ⟨.unknownEscape e, .after ['\'', '\\']⟩
    | some c => closeChar c ['\'', '\\', e] rest
  | c :: rest =>
    if c = '\'' ∨ c = '\n' then .error ⟨.emptyChar, .start⟩ else closeChar c ['\'', c] rest

def readString (rest : List Char) : Except Fault Reading :=
  match stringBody rest with
  | .error fault => .error (fault.behind ['"'])
  | .ok b => .ok ⟨.string (String.ofList b.content), '"' :: b.text, b.rest⟩

def isHexDigit (c : Char) : Bool :=
  c.isDigit || ('a' ≤ c && c ≤ 'f') || ('A' ≤ c && c ≤ 'F')

def hexValue (c : Char) : Nat :=
  if c.isDigit then c.toNat - '0'.toNat
  else if 'a' ≤ c then c.toNat - 'a'.toNat + 10
  else c.toNat - 'A'.toNat + 10

def numberIn (base : Nat) (digits : List Char) : Nat :=
  digits.foldl (fun n c => n * base + hexValue c) 0

def word? (n : Nat) : Option Int64 := if n < 1 <<< 63 then some (Int64.ofNat n) else none

def numeral : Bool → List Char → List Char
  | _, [] => []
  | dotted, c :: rest =>
    if c.isDigit || c = '_' then c :: numeral dotted rest
    else if c = '.' && !dotted && rest.head?.any Char.isDigit then c :: numeral true rest
    else []

def decimalValue (digits : List Char) : Float :=
  let whole := digits.takeWhile (· ≠ '.')
  let behind := (digits.dropWhile (· ≠ '.')).drop 1
  Float.ofScientific (numberIn 10 (whole ++ behind)) true behind.length

def readHex (x : Char) (rest : List Char) : Except Fault Reading :=
  let digits := rest.takeWhile isHexDigit
  if digits.isEmpty then .error ⟨.noHexDigits, .start⟩
  else match word? (numberIn 16 digits) with
    | none => .error ⟨.hexTooLarge (String.ofList digits), .start⟩
    | some n => .ok ⟨.integer n, '0' :: x :: digits, rest.dropWhile isHexDigit⟩

def readDecimal (cs : List Char) : Except Fault Reading :=
  let text := numeral false cs
  let rest := cs.drop text.length
  let digits := text.filter (· ≠ '_')
  if '.' ∈ text then .ok ⟨.float (decimalValue digits), text, rest⟩
  else match word? (numberIn 10 digits) with
    | none => .error ⟨.integerTooLarge (String.ofList digits), .start⟩
    | some n => .ok ⟨.integer n, text, rest⟩

def readNumber : List Char → Except Fault Reading
  | '0' :: 'x' :: rest => readHex 'x' rest
  | '0' :: 'X' :: rest => readHex 'X' rest
  | cs => readDecimal cs

def word (name : String) : Token :=
  match name with
  | "true" => .bool true
  | "false" => .bool false
  | "none" => .none
  | name =>
    match Keyword.all.find? (·.text = name) with
    | some k => .keyword k
    | none => .ident name

def spellings : List (List Char × Token) :=
  Symbol.all.map (fun s => (s.text.toList, .symbol s)) ++
    (Symbol.all.filter Symbol.isCompoundable).map
      fun s => (s.text.toList ++ ['='], .compound (.symbol s))

def readSymbol (cs : List Char) : Option Reading :=
  let starts := spellings.filter fun (spelling, _) => spelling.isPrefixOf cs
  let ofLength (n : Nat) := starts.find? fun (spelling, _) => spelling.length = n
  ((ofLength 3).or (ofLength 2)).or (ofLength 1) |>.map fun (spelling, token) =>
    ⟨token, spelling, cs.drop spelling.length⟩

def readToken (c : Char) (rest : List Char) : Except Fault Reading :=
  if c = '\n' then .ok ⟨.newline, ['\n'], rest⟩
  else if c = '#' then
    let body := rest.takeWhile (· ≠ '\n')
    .ok ⟨.comment (String.ofList (Text.trim body)), '#' :: body, rest.dropWhile (· ≠ '\n')⟩
  else if c = '"' then readString rest
  else if c = '\'' then readChar rest
  else if c.isDigit then readNumber (c :: rest)
  else if isNameStart c then
    let name := c :: rest.takeWhile isNamePart
    .ok ⟨word (String.ofList name), name, rest.dropWhile isNamePart⟩
  else
    match readSymbol (c :: rest) with
    | some r => .ok r
    | none => .error ⟨.unexpected c, .start⟩

theorem Body.extend_ok {c : Char} {text : List Char} {r : Except Fault Body} {b : Body}
    (h : Body.extend c text r = .ok b) :
    ∃ inner, r = .ok inner ∧ b = ⟨c :: inner.content, text ++ inner.text, inner.rest⟩ := by
  cases r with
  | error => simp [Body.extend] at h
  | ok inner => exact ⟨inner, rfl, by simpa [Body.extend] using h.symm⟩

theorem stringBody_split {cs : List Char} {b : Body} (h : stringBody cs = .ok b) :
    b.text ++ b.rest = cs := by
  fun_induction stringBody cs generalizing b with
  | case1 | case3 | case4 | case6 => simp at h
  | case2 => cases h; rfl
  | case5 e rest c _ ih =>
    obtain ⟨inner, hi, rfl⟩ := Body.extend_ok h
    simp [← ih hi]
  | case7 c rest _ _ _ _ ih =>
    obtain ⟨inner, hi, rfl⟩ := Body.extend_ok h
    simp [← ih hi]

theorem numeral_append_drop (dotted : Bool) (cs : List Char) :
    numeral dotted cs ++ cs.drop (numeral dotted cs).length = cs := by
  induction cs generalizing dotted with
  | nil => rfl
  | cons c rest ih =>
    unfold numeral
    split
    · simp [ih]
    · split
      · simp [ih]
      · simp

theorem readString_split {cs : List Char} {r : Reading} (h : readString cs = .ok r) :
    r.text ++ r.rest = '"' :: cs := by
  unfold readString at h
  split at h
  · simp at h
  · cases h
    simp [stringBody_split ‹_›]

theorem closeChar_split {c : Char} {text cs : List Char} {r : Reading}
    (h : closeChar c text cs = .ok r) : r.text ++ r.rest = text ++ cs := by
  unfold closeChar at h
  split at h
  · cases h; simp
  · simp at h

theorem readChar_split {cs : List Char} {r : Reading} (h : readChar cs = .ok r) :
    r.text ++ r.rest = '\'' :: cs := by
  unfold readChar at h
  split at h
  · simp at h
  · simp at h
  · split at h
    · simp at h
    · simpa using closeChar_split h
  · split at h
    · simp at h
    · simpa using closeChar_split h

theorem readDecimal_split {cs : List Char} {r : Reading} (h : readDecimal cs = .ok r) :
    r.text ++ r.rest = cs := by
  unfold readDecimal at h
  simp only at h
  split at h
  · cases h; exact numeral_append_drop false cs
  · split at h
    · simp at h
    · cases h; exact numeral_append_drop false cs

theorem readHex_split {x : Char} {cs : List Char} {r : Reading} (h : readHex x cs = .ok r) :
    r.text ++ r.rest = '0' :: x :: cs := by
  unfold readHex at h
  simp only at h
  split at h
  · simp at h
  · split at h
    · simp at h
    · cases h; simp

theorem readNumber_split {cs : List Char} {r : Reading} (h : readNumber cs = .ok r) :
    r.text ++ r.rest = cs := by
  unfold readNumber at h
  split at h
  · exact readHex_split h
  · exact readHex_split h
  · exact readDecimal_split h

theorem readSymbol_split {cs : List Char} {r : Reading} (h : readSymbol cs = some r) :
    r.text ++ r.rest = cs := by
  unfold readSymbol at h
  simp only [Option.map_eq_some_iff] at h
  obtain ⟨⟨spelling, token⟩, found, rfl⟩ := h
  have starts : spelling.isPrefixOf cs := by
    simp only [Option.or_eq_some_iff] at found
    rcases found with (h | ⟨-, h⟩) | ⟨-, h⟩ <;>
      simpa using (List.mem_filter.1 (List.mem_of_find?_eq_some h)).2
  obtain ⟨behind, rfl⟩ := List.isPrefixOf_iff_prefix.1 starts
  simp

theorem readToken_split {c : Char} {cs : List Char} {r : Reading}
    (h : readToken c cs = .ok r) : r.text ++ r.rest = c :: cs := by
  unfold readToken at h
  split at h
  · cases h; simp [*]
  split at h
  · cases h; simp [*]
  split at h
  · subst_vars; exact readString_split h
  split at h
  · subst_vars; exact readChar_split h
  split at h
  · exact readNumber_split h
  split at h
  · cases h; simp
  split at h
  · cases h; exact readSymbol_split ‹_›
  · simp at h

theorem readString_text_ne_nil {cs : List Char} {r : Reading} (h : readString cs = .ok r) :
    r.text ≠ [] := by
  unfold readString at h
  split at h
  · simp at h
  · cases h; simp

theorem closeChar_text_ne_nil {c : Char} {text cs : List Char} {r : Reading}
    (h : closeChar c text cs = .ok r) : r.text ≠ [] := by
  unfold closeChar at h
  split at h
  · cases h; simp
  · simp at h

theorem readChar_text_ne_nil {cs : List Char} {r : Reading} (h : readChar cs = .ok r) :
    r.text ≠ [] := by
  unfold readChar at h
  repeat' split at h
  all_goals first | exact closeChar_text_ne_nil h | simp at h

theorem readNumber_text_ne_nil {c : Char} {cs : List Char} {r : Reading} (digit : c.isDigit)
    (h : readNumber (c :: cs) = .ok r) : r.text ≠ [] := by
  have decimal {r : Reading} (h : readDecimal (c :: cs) = .ok r) : r.text ≠ [] := by
    unfold readDecimal at h
    simp only at h
    split at h
    · cases h; simp [numeral, digit]
    · split at h
      · simp at h
      · cases h; simp [numeral, digit]
  have hex {x : Char} {cs : List Char} {r : Reading} (h : readHex x cs = .ok r) :
      r.text ≠ [] := by
    unfold readHex at h
    simp only at h
    repeat' split at h
    · simp at h
    · simp at h
    · cases h; simp
  unfold readNumber at h
  split at h
  · exact hex h
  · exact hex h
  · exact decimal h

theorem readSymbol_text_ne_nil {cs : List Char} {r : Reading} (h : readSymbol cs = some r) :
    r.text ≠ [] := by
  unfold readSymbol at h
  simp only [Option.map_eq_some_iff] at h
  obtain ⟨⟨spelling, token⟩, found, rfl⟩ := h
  rintro rfl
  simp only [Option.or_eq_some_iff] at found
  rcases found with (h | ⟨-, h⟩) | ⟨-, h⟩ <;> simpa using List.find?_some h

theorem readToken_text_ne_nil {c : Char} {cs : List Char} {r : Reading}
    (h : readToken c cs = .ok r) : r.text ≠ [] := by
  unfold readToken at h
  split at h
  · cases h; simp
  split at h
  · cases h; simp
  split at h
  · exact readString_text_ne_nil h
  split at h
  · exact readChar_text_ne_nil h
  split at h
  · exact readNumber_text_ne_nil ‹_› h
  split at h
  · cases h; simp
  split at h
  · cases h; exact readSymbol_text_ne_nil ‹_›
  · simp at h

theorem readToken_rest_length {c : Char} {cs : List Char} {r : Reading}
    (h : readToken c cs = .ok r) : r.rest.length < (c :: cs).length := by
  rw [← readToken_split h]
  have := List.length_pos_iff.2 (readToken_text_ne_nil h)
  simp; omega

def scan (place : Span) (cs : List Char) : Except LexError (List Spanned) :=
  let here := place.after (cs.takeWhile isBlank)
  match _ : cs.dropWhile isBlank with
  | [] => .ok [⟨.eof, here⟩]
  | c :: rest =>
    match _ : readToken c rest with
    | .error fault => .error ⟨fault.cause, fault.place.from here⟩
    | .ok r =>
      match scan (here.after r.text) r.rest with
      | .error e => .error e
      | .ok more => .ok (⟨r.token, here⟩ :: more)
termination_by cs.length
decreasing_by
  rename_i tail read
  have shorter := readToken_rest_length read
  have := (List.dropWhile_suffix isBlank (l := cs)).length_le
  rw [tail] at this
  omega

end Lexer

def lex (source : String) : Except LexError (List Spanned) := Lexer.scan .start source.toList

end Quill
