import Quill.Token
import Quill.Text.Classes
import Quill.Text.Write

/-! Token listings: one line to a token with its place, its group and its text. -/
namespace Quill

namespace Token

inductive Group where
  | newline | comment | eof | int | float | string | char | const | ident | keyword | assign
  | cmp | op | punct
  deriving DecidableEq, Repr

def Group.name : Group → String
  | newline => "NEWLINE"
  | comment => "COMMENT"
  | eof => "EOF"
  | int => "INT"
  | float => "FLOAT"
  | string => "STRING"
  | char => "CHAR"
  | const => "CONST"
  | ident => "IDENT"
  | keyword => "KEYWORD"
  | assign => "ASSIGN"
  | cmp => "CMP"
  | op => "OP"
  | punct => "PUNCT"

def Group.colour : Group → String
  | newline | comment | eof => "\x1b[2m"
  | string | char => "\x1b[32m"
  | int | float | const => "\x1b[36m"
  | ident => "\x1b[33m"
  | op | cmp | assign => "\x1b[35m"
  | keyword | punct => "\x1b[0m"

def plainColour : String := "\x1b[0m"

def symbolGroup : Symbol → Group
  | .assign => .assign
  | .eqEq | .notEq | .lt | .ltEq | .gt | .gtEq => .cmp
  | .plus | .minus | .star | .slash | .slashSlash | .percent | .starStar | .amp | .pipe | .caret
  | .tilde | .shl | .shr | .ampAmp | .pipePipe | .bang | .plusPlus | .minusMinus => .op
  | _ => .punct

def group : Token → Group
  | newline => .newline
  | comment _ => .comment
  | eof => .eof
  | integer _ => .int
  | float _ => .float
  | string _ => .string
  | char _ => .char
  | bool _ | none => .const
  | ident _ => .ident
  | keyword _ => .keyword
  | compound _ => .assign
  | symbol s => symbolGroup s

def tagged : Token → String
  | integer n => "Integer(" ++ toString n ++ ")"
  | float x => "Float(" ++ Number.print .marked x ++ ")"
  | string s => "String(" ++ Text.quotedString s ++ ")"
  | char c => "Char(" ++ Text.quotedChar c ++ ")"
  | bool b => "Bool(" ++ (if b then "true" else "false") ++ ")"
  | none => "None"
  | keyword k => k.tag
  | symbol s => s.tag
  | compound op => "CompoundAssign(" ++ op.tagged ++ ")"
  | ident name => "Ident(" ++ Text.quotedString name ++ ")"
  | comment text => "Comment(" ++ Text.quotedString text ++ ")"
  | newline => "Newline"
  | eof => "Eof"

def pretty : Token → String
  | comment text => "# " ++ String.ofList (Text.trim text.toList)
  | string s => Text.quotedString s
  | char c => Text.quotedChar c
  | integer n => toString n
  | float x => Number.print .plain x
  | bool b => if b then "true" else "false"
  | ident name => name
  | compound op => op.tagged ++ "="
  | other => other.tagged

end Token

structure DumpStyle where
  colour : Bool
  pretty : Bool
  deriving DecidableEq, Repr

namespace DumpStyle

def twoDigits (n : Nat) : String := Text.padLeft '0' 2 (toString n)

def line (style : DumpStyle) (t : Spanned) : String :=
  let place := "[" ++ twoDigits t.span.line ++ ":" ++ twoDigits t.span.col ++ "] "
  let text := if style.pretty then t.token.pretty else t.token.tagged
  let body := Text.padRight 8 t.token.group.name ++ " " ++ text
  let shown := if style.colour then t.token.group.colour ++ body ++ Token.plainColour else body
  place ++ shown ++ "\n"

def dump (style : DumpStyle) (tokens : List Spanned) : String :=
  String.join (tokens.map style.line)

end DumpStyle

end Quill
