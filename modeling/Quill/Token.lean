import Quill.Number.Print

/-! What source texts are made of: places in them, counted from line 1 and column 1, constants as a
program writes them, and tokens: literals, keywords, fixed symbols, names, and the marks for comments
and line ends. -/
namespace Quill

structure Span where
  line : Nat
  col : Nat
  deriving DecidableEq, Repr

namespace Span

def start : Span := ⟨1, 1⟩

instance : Inhabited Span := ⟨start⟩

def next (s : Span) (c : Char) : Span :=
  if c = '\n' then ⟨s.line + 1, 1⟩ else ⟨s.line, s.col + 1⟩

def after (s : Span) (cs : List Char) : Span := cs.foldl next s

def text (s : Span) : String := s!"{s.line}:{s.col}"

end Span

inductive Literal where
  | int (n : Int64)
  | float (x : Float)
  | string (s : String)
  | char (c : Char)
  | bool (b : Bool)
  | none
  deriving DecidableEq, Repr

inductive PropertyName where
  | name (s : String)
  | int (n : Int64)
  deriving DecidableEq, Repr

def PropertyName.text : PropertyName → String
  | name s => s
  | int n => toString n

inductive Keyword where
  | kwLet | kwMut | kwFn | kwReturn | kwIf | kwElse | kwWhile | kwType
  deriving DecidableEq, Repr

namespace Keyword

def all : List Keyword := [kwLet, kwMut, kwFn, kwReturn, kwIf, kwElse, kwWhile, kwType]

def text : Keyword → String
  | kwLet => "let"
  | kwMut => "mut"
  | kwFn => "fn"
  | kwReturn => "return"
  | kwIf => "if"
  | kwElse => "else"
  | kwWhile => "while"
  | kwType => "type"

def tag : Keyword → String
  | kwLet => "Let"
  | kwMut => "Mut"
  | kwFn => "Fn"
  | kwReturn => "Return"
  | kwIf => "If"
  | kwElse => "Else"
  | kwWhile => "While"
  | kwType => "Type"

end Keyword

inductive Symbol where
  | plus | minus | star | slash | slashSlash | percent | starStar
  | amp | pipe | caret | tilde | shl | shr
  | ampAmp | pipePipe | bang
  | eqEq | notEq | lt | ltEq | gt | gtEq
  | assign | plusPlus | minusMinus
  | arrow | dot | comma | colon | semicolon | question
  | lParen | rParen | lBrace | rBrace | lBracket | rBracket
  deriving DecidableEq, Repr

namespace Symbol

def all : List Symbol :=
  [plus, minus, star, slash, slashSlash, percent, starStar, amp, pipe, caret, tilde, shl, shr,
   ampAmp, pipePipe, bang, eqEq, notEq, lt, ltEq, gt, gtEq, assign, plusPlus, minusMinus,
   arrow, dot, comma, colon, semicolon, question, lParen, rParen, lBrace, rBrace, lBracket,
   rBracket]

def text : Symbol → String
  | plus => "+"
  | minus => "-"
  | star => "*"
  | slash => "/"
  | slashSlash => "//"
  | percent => "%"
  | starStar => "**"
  | amp => "&"
  | pipe => "|"
  | caret => "^"
  | tilde => "~"
  | shl => "<<"
  | shr => ">>"
  | ampAmp => "&&"
  | pipePipe => "||"
  | bang => "!"
  | eqEq => "=="
  | notEq => "!="
  | lt => "<"
  | ltEq => "<="
  | gt => ">"
  | gtEq => ">="
  | assign => "="
  | plusPlus => "++"
  | minusMinus => "--"
  | arrow => "->"
  | dot => "."
  | comma => ","
  | colon => ":"
  | semicolon => ";"
  | question => "?"
  | lParen => "("
  | rParen => ")"
  | lBrace => "\x7b"
  | rBrace => "\x7d"
  | lBracket => "["
  | rBracket => "]"

def tag : Symbol → String
  | plus => "Plus"
  | minus => "Minus"
  | star => "Star"
  | slash => "Slash"
  | slashSlash => "SlashSlash"
  | percent => "Percent"
  | starStar => "StarStar"
  | amp => "Amp"
  | pipe => "Pipe"
  | caret => "Caret"
  | tilde => "Tilde"
  | shl => "Shl"
  | shr => "Shr"
  | ampAmp => "AmpAmp"
  | pipePipe => "PipePipe"
  | bang => "Bang"
  | eqEq => "EqEq"
  | notEq => "NotEq"
  | lt => "Lt"
  | ltEq => "LtEq"
  | gt => "Gt"
  | gtEq => "GtEq"
  | assign => "Assign"
  | plusPlus => "PlusPlus"
  | minusMinus => "MinusMinus"
  | arrow => "Arrow"
  | dot => "Dot"
  | comma => "Comma"
  | colon => "Colon"
  | semicolon => "Semicolon"
  | question => "Question"
  | lParen => "LParen"
  | rParen => "RParen"
  | lBrace => "LBrace"
  | rBrace => "RBrace"
  | lBracket => "LBracket"
  | rBracket => "RBracket"

def isCompoundable : Symbol → Bool
  | plus | minus | star | slash | slashSlash | percent | starStar | amp | pipe | caret | shl
  | shr => true
  | _ => false

end Symbol

inductive Token where
  | integer (n : Int64)
  | float (x : Float)
  | string (s : String)
  | char (c : Char)
  | bool (b : Bool)
  | none
  | keyword (k : Keyword)
  | symbol (s : Symbol)
  | compound (op : Token)
  | ident (name : String)
  | comment (text : String)
  | newline
  | eof
  deriving DecidableEq, Repr

structure Spanned where
  token : Token
  span : Span
  deriving DecidableEq, Repr

namespace Token

def isCompoundable : Token → Bool
  | symbol s => s.isCompoundable
  | _ => false

def describe : Token → String
  | integer n => toString n
  | float x => Number.print .plain x
  | string s => "\"" ++ s ++ "\""
  | char c => "'" ++ c.toString ++ "'"
  | bool b => if b then "true" else "false"
  | none => "none"
  | keyword k => k.text
  | symbol s => s.text
  | compound op => op.describe ++ "="
  | ident name => name
  | comment _ => "comment"
  | newline => "newline"
  | eof => "end of input"

end Token

end Quill
