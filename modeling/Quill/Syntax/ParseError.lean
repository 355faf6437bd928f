import Quill.Token

/-! Faults of a token sequence that is no program. -/
namespace Quill

inductive Slot where
  | afterReturn | afterExpression | afterLetDecl
  | openParams | closeParams | inAlias | afterAlias | openBlock
  | closeIndex | closeArgs | closeGrouping | closeComputedKey | afterKey | closeObject
  | closeTypeArgs | closeParenthesizedType | inFunctionType | afterParamName | closeTypeParams
  | closeIndexSignature | afterIndexSignature | afterMemberName | closeInterface
  | letName | functionName | paramName | aliasName | assignTarget | argName
  deriving DecidableEq, Repr

def Slot.text : Slot → String
  | afterReturn => "after return"
  | afterExpression => "after expression"
  | afterLetDecl => "after variable declaration"
  | openParams => "to open parameter list"
  | closeParams => "to close parameter list"
  | inAlias => "in type alias"
  | afterAlias => "after type alias"
  | openBlock => "to open block"
  | closeIndex => "to close index"
  | closeArgs => "to close argument list"
  | closeGrouping => "to close grouping"
  | closeComputedKey => "to close computed key"
  | afterKey => "after property key"
  | closeObject => "to close object literal"
  | closeTypeArgs => "to close type arguments"
  | closeParenthesizedType => "to close parenthesized type"
  | inFunctionType => "in function type"
  | afterParamName => "after parameter name"
  | closeTypeParams => "to close function type parameters"
  | closeIndexSignature => "to close index signature"
  | afterIndexSignature => "after index signature"
  | afterMemberName => "after member name"
  | closeInterface => "to close interface type"
  | letName => "after 'let'"
  | functionName => "after 'fn'"
  | paramName => "as parameter name"
  | aliasName => "after 'type'"
  | assignTarget => "as assignment target"
  | argName => "as argument name"

inductive ParseCause where
  | missingSymbol (wanted : Symbol) (slot : Slot) (found : Option Token)
  | missingName (slot : Slot)
  | unclosedBlock
  | notCompound (op : Token)
  | stepOfNonVariable (op : Symbol)
  | missingMember
  | endOfInput
  | noExpression (found : Token)
  | missingKey
  | missingType
  | noType (found : Token)
  | missingMemberName
  -- The recursion bound was used up; `Parser.bound` leaves enough for every input.
  | exhausted
  deriving DecidableEq, Repr

def ParseCause.message : ParseCause → String
  | missingSymbol wanted slot found =>
    let shown := match found with
      | some token => token.describe
      | none => "end of input"
    "expected '" ++ wanted.text ++ "' " ++ slot.text ++ ", found '" ++ shown ++ "'"
  | missingName slot => "expected identifier " ++ slot.text
  | unclosedBlock => "unexpected EOF, expected '\x7d'"
  | notCompound op => "'" ++ op.describe ++ "=' is not a compound operator"
  | stepOfNonVariable op => "'" ++ op.text ++ "' can only be applied to a variable"
  | missingMember => "expected member name after '.'"
  | endOfInput => "unexpected end of input"
  | noExpression found => "expected expression, found '" ++ found.describe ++ "'"
  | missingKey => "expected property key"
  | missingType => "expected type"
  | noType found => "expected type, found '" ++ found.describe ++ "'"
  | missingMemberName => "expected member name in interface type"
  | exhausted => "nesting too deep"

structure ParseError where
  cause : ParseCause
  span : Span
  deriving DecidableEq, Repr

def ParseError.message (e : ParseError) : String := e.span.text ++ ": " ++ e.cause.message

end Quill
