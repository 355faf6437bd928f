import Quill.Proofs.Lexing.Division

/-! What stands between double quotes. Each character of the content is written as itself or by its
escape, where it has one, and every text of that kind is read back. -/
namespace Quill.Lexer

def escapeOf? : Char → Option Char
  | '\n' => some 'n'
  | '\t' => some 't'
  | '\r' => some 'r'
  | '\\' => some '\\'
  | '"' => some '"'
  | '\'' => some '\''
  | '\x00' => some '0'
  | _ => none

/-- The ways to write a content between double quotes. -/
inductive Quotes : List Char → List Char → Prop where
  | nil : Quotes [] []
  | raw {c : Char} {content text : List Char} (plain : c ∉ ['\n', '\\', '"'])
      (rest : Quotes content text) : Quotes (c :: content) (c :: text)
  | escaped {c e : Char} {content text : List Char} (known : escapeOf? c = some e)
      (rest : Quotes content text) : Quotes (c :: content) ('\\' :: e :: text)

theorem escapedOf {c e : Char} : escaped? e = some c ↔ escapeOf? c = some e := by
  constructor
  · fun_cases escaped? e <;> rintro ⟨⟩ <;> rfl
  · fun_cases escapeOf? c <;> rintro ⟨⟩ <;> rfl

variable {content text : List Char}

theorem Quotes.body (quotes : Quotes content text) (behind : List Char) :
    stringBody (text ++ '"' :: behind) = .ok ⟨content, text ++ ['"'], behind⟩ := by
  induction quotes with
  | nil => rfl
  | raw plain rest ih =>
    simp only [List.mem_cons, List.not_mem_nil, or_false, not_or] at plain
    simp [stringBody, plain, ih, Body.extend]
  | escaped known rest ih => simp [stringBody, escapedOf.mpr known, ih, Body.extend]

/-- Wherever it stands, a content written between double quotes is read as one string, and the scan
goes on behind the closing one. -/
theorem stringsReadBack (quotes : Quotes content text) (place : Span) (behind : List Char) :
    scan place ('"' :: (text ++ '"' :: behind)) =
      (scan (place.after ('"' :: (text ++ ['"']))) behind).map
        (⟨.string (String.ofList content), place⟩ :: ·) := by
  have reads : readToken '"' (text ++ '"' :: behind) =
      .ok ⟨.string (String.ofList content), '"' :: (text ++ ['"']), behind⟩ := by
    simp [readToken, readString, quotes.body behind]
  exact scanToken (List.forall_mem_nil _) (by decide) reads

theorem backslashReadBack : scan .start ['"', 'a', '\'', '\\', '\\', '"', '#'] =
    (scan ⟨1, 7⟩ ['#']).map (⟨.string (String.ofList ['a', '\'', '\\']), .start⟩ :: ·) :=
  stringsReadBack (.raw (by decide) (.raw (by decide) (.escaped rfl .nil))) .start ['#']

end Quill.Lexer
