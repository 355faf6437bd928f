import Quill.Syntax
import Quill.Syntax.ParseError

/-! Parsing by recursive descent. The recursion is bounded by a number computed from the count of
tokens: between two tokens consumed the descent passes fewer than `Parser.descent` rules. -/
namespace Quill

def BinaryOp.ofSymbol? : Symbol → Option BinaryOp
  | .plus => some .add
  | .minus => some .sub
  | .star => some .mul
  | .slash => some .div
  | .slashSlash => some .intDiv
  | .percent => some .mod
  | .starStar => some .pow
  | .amp => some .bitAnd
  | .pipe => some .bitOr
  | .caret => some .bitXor
  | .shl => some .shl
  | .shr => some .shr
  | .ampAmp => some .and
  | .pipePipe => some .or
  | .eqEq => some .eq
  | .notEq => some .notEq
  | .lt => some .lt
  | .ltEq => some .ltEq
  | .gt => some .gt
  | .gtEq => some .gtEq
  | _ => none

def BinaryOp.level : BinaryOp → Nat
  | or => 0
  | and => 1
  | bitOr => 2
  | bitXor => 3
  | bitAnd => 4
  | eq | notEq => 5
  | lt | ltEq | gt | gtEq => 6
  | shl | shr => 7
  | add | sub => 8
  | mul | div | intDiv | mod => 9
  | pow => 10

def UnaryOp.ofSymbol? : Symbol → Option UnaryOp
  | .minus => some .negate
  | .plus => some .plus
  | .bang => some .not
  | .tilde => some .bitNot
  | _ => none

def StepOp.ofSymbol? : Symbol → Option StepOp
  | .plusPlus => some .increment
  | .minusMinus => some .decrement
  | _ => none

def BinaryOp.ofCompound? : Token → Option BinaryOp
  | .symbol s => if s.isCompoundable then ofSymbol? s else none
  | _ => none

structure Cursor where
  rest : List Spanned
  last : Option Span
  next : Nat

abbrev Parser (α : Type) := StateT Cursor (Except ParseError) α

namespace Cursor

def peek (c : Cursor) : Option Token := c.rest.head?.map (·.token)

def peekNext (c : Cursor) : Option Token := (c.rest.drop 1).head?.map (·.token)

def here (c : Cursor) : Span := ((c.rest.head?.map (·.span)).or c.last).getD .start

end Cursor

namespace Parser

def fail (cause : ParseCause) : Parser α := do throw ⟨cause, (← get).here⟩

def peek : Parser (Option Token) := do return (← get).peek

def peekNext : Parser (Option Token) := do return (← get).peekNext

def here : Parser Span := do return (← get).here

def advance : Parser (Option Token) := fun c =>
  match c.rest with
  | [] => .ok (none, c)
  | t :: rest => .ok (some t.token, { c with rest := rest, last := some t.span })

def isNext (s : Symbol) : Parser Bool := do return (← peek) = some (.symbol s)

def eat (s : Symbol) : Parser Bool := do
  if ← isNext s then
    let _ ← advance
    return true
  else return false

def expect (s : Symbol) (slot : Slot) : Parser Unit := do
  unless ← eat s do fail (.missingSymbol s slot (← peek))

def expectName (slot : Slot) : Parser String := do
  match ← peek with
  | some (.ident name) =>
    let _ ← advance
    return name
  | _ => fail (.missingName slot)

def mark (span : Span) : Parser Mark := fun c => .ok (⟨c.next, span⟩, { c with next := c.next + 1 })

def literal? : Token → Option Literal
  | .integer n => some (.int n)
  | .float x => some (.float x)
  | .string s => some (.string s)
  | .char c => some (.char c)
  | .bool b => some (.bool b)
  | .none => some .none
  | _ => none

mutual

def type : Nat → Parser TypeExpr
  | 0 => fail .exhausted
  | fuel + 1 => do
    let first ← intersectionType fuel
    match ← typesAfter .pipe fuel with
    | [] => return first
    | more => return .union (first :: more)

def intersectionType : Nat → Parser TypeExpr
  | 0 => fail .exhausted
  | fuel + 1 => do
    let first ← arrayType fuel
    match ← typesAfter .amp fuel with
    | [] => return first
    | more => return .intersection (first :: more)

def typesAfter (sep : Symbol) : Nat → Parser (List TypeExpr)
  | 0 => fail .exhausted
  | fuel + 1 => do
    if ← eat sep then
      let member ← if sep = .pipe then intersectionType fuel else arrayType fuel
      return member :: (← typesAfter sep fuel)
    else return []

def arrayType : Nat → Parser TypeExpr
  | 0 => fail .exhausted
  | fuel + 1 => do arraySuffix (← primaryType fuel) fuel

def arraySuffix (element : TypeExpr) : Nat → Parser TypeExpr
  | 0 => fail .exhausted
  | fuel + 1 => do
    if (← isNext .lBracket) && (← peekNext) = some (.symbol .rBracket) then
      let _ ← advance
      let _ ← advance
      arraySuffix (.array element) fuel
    else return element

def primaryType : Nat → Parser TypeExpr
  | 0 => fail .exhausted
  | fuel + 1 => do
    match ← advance with
    | none => fail .missingType
    | some (.ident name) =>
      if ← eat .lt then
        let args ← typeArgs fuel
        expect .gt .closeTypeArgs
        return .named name args
      else return .named name []
    | some .none => return .named "none" []
    | some (.symbol .lParen) =>
      let inner ← type fuel
      expect .rParen .closeParenthesizedType
      return .parenthesized inner
    | some (.keyword .kwFn) =>
      expect .lParen .inFunctionType
      let params ← typeParams fuel
      expect .rParen .closeTypeParams
      if ← eat .arrow then return .function params (← type fuel)
      else return .function params (.named "none" [])
    | some (.symbol .lBrace) =>
      let members ← typeMembers fuel
      expect .rBrace .closeInterface
      return .interface members
    | some token =>
      match literal? token with
      | some value => return .literal value
      | none => fail (.noType token)

def typeArgs : Nat → Parser (List TypeExpr)
  | 0 => fail .exhausted
  | fuel + 1 => do
    let arg ← type fuel
    if ← eat .comma then return arg :: (← typeArgs fuel) else return [arg]

def typeParams : Nat → Parser (List TypeParam)
  | 0 => fail .exhausted
  | fuel + 1 => do
    if ← isNext .rParen then return []
    let param ← typeParam fuel
    if ← eat .comma then return param :: (← typeParams fuel) else return [param]

def typeParam : Nat → Parser TypeParam
  | 0 => fail .exhausted
  | fuel + 1 => do
    match ← peek, ← peekNext with
    | some (.ident name), some (.symbol .colon) =>
      let _ ← advance
      let _ ← advance
      return .mk (some name) (← type fuel) false
    | some (.ident name), some (.symbol .question) =>
      let _ ← advance
      let _ ← advance
      expect .colon .afterParamName
      return .mk (some name) (← type fuel) true
    | _, _ => return .mk none (← type fuel) false

def typeMembers : Nat → Parser (List TypeMember)
  | 0 => fail .exhausted
  | fuel + 1 => do
    if ← isNext .rBrace then return []
    let member ← typeMember fuel
    if (← eat .comma) then return member :: (← typeMembers fuel)
    else if (← eat .semicolon) then return member :: (← typeMembers fuel)
    else return [member]

def typeMember : Nat → Parser TypeMember
  | 0 => fail .exhausted
  | fuel + 1 => do
    if ← eat .lBracket then
      let key ← type fuel
      expect .rBracket .closeIndexSignature
      expect .colon .afterIndexSignature
      return .index key (← type fuel)
    let mutable := (← peek) = some (.keyword .kwMut)
    if mutable then
      let _ ← advance
    let key ← match ← advance with
      | some (.ident name) | some (.string name) => pure (PropertyName.name name)
      | some (.integer n) => pure (PropertyName.int n)
      | _ => fail .missingMemberName
    expect .colon .afterMemberName
    return .property key (← type fuel) mutable

end

def annotation (fuel : Nat) : Parser (Option TypeExpr) := do
  if ← eat .colon then return some (← type fuel) else return none

mutual

def statement : Nat → Parser Stmt
  | 0 => fail .exhausted
  | fuel + 1 => do
    let span ← here
    match ← peek, ← peekNext with
    | some (.keyword .kwLet), _ =>
      let _ ← advance
      let mutable := (← peek) = some (.keyword .kwMut)
      if mutable then
        let _ ← advance
      let name ← expectName .letName
      let type ← annotation fuel
      let init ← initializer fuel
      expect .semicolon .afterLetDecl
      return .letDecl (← mark span) name mutable type init
    | some (.keyword .kwFn), some (.ident name) =>
      let _ ← advance
      let _ ← advance
      let (params, ret) ← signature fuel
      let body ← block fuel
      return .functionDecl (← mark span) name params ret body
    | some (.keyword .kwType), _ =>
      let _ ← advance
      let name ← expectName .aliasName
      expect .assign .inAlias
      let aliased ← type fuel
      expect .semicolon .afterAlias
      return .typeAlias (← mark span) name aliased
    | some (.keyword .kwIf), _ => ifElse fuel
    | some (.keyword .kwWhile), _ =>
      let _ ← advance
      let condition ← expression fuel
      let body ← block fuel
      return .whileLoop (← mark span) condition body
    | some (.keyword .kwReturn), _ =>
      let _ ← advance
      if ← isNext .semicolon then
        expect .semicolon .afterReturn
        return .ret (← mark span) none
      else
        let value ← expression fuel
        expect .semicolon .afterReturn
        return .ret (← mark span) (some value)
    | some (.symbol .lBrace), _ => return .block (← block fuel)
    | _, _ =>
      let value ← expression fuel
      expect .semicolon .afterExpression
      return .expr (← mark span) value

def initializer : Nat → Parser (Option Expr)
  | 0 => fail .exhausted
  | fuel + 1 => do
    if ← eat .assign then return some (← expression fuel) else return none

def signature : Nat → Parser (List Param × Option TypeExpr)
  | 0 => fail .exhausted
  | fuel + 1 => do
    expect .lParen .openParams
    let params ← parameters fuel
    expect .rParen .closeParams
    return (params, ← annotation fuel)

def parameters : Nat → Parser (List Param)
  | 0 => fail .exhausted
  | fuel + 1 => do
    if ← isNext .rParen then return []
    let name ← expectName .paramName
    let type ← annotation fuel
    let default ← initializer fuel
    let param := Param.mk name type default
    if ← eat .comma then return param :: (← parameters fuel) else return [param]

def ifElse : Nat → Parser Stmt
  | 0 => fail .exhausted
  | fuel + 1 => do
    let span ← here
    let _ ← advance
    let condition ← expression fuel
    let thenBranch ← block fuel
    let elseBranch ←
      if (← peek) = some (.keyword .kwElse) then
        let _ ← advance
        if (← peek) = some (.keyword .kwIf) then some <$> ifElse fuel
        else (fun b => some (.block b)) <$> block fuel
      else pure none
    return .ifElse (← mark span) condition thenBranch elseBranch

def block : Nat → Parser Block
  | 0 => fail .exhausted
  | fuel + 1 => do
    let span ← here
    expect .lBrace .openBlock
    let body ← blockBody fuel
    return .mk (← mark span) body

def blockBody : Nat → Parser (List Stmt)
  | 0 => fail .exhausted
  | fuel + 1 => do
    match ← peek with
    | some (.symbol .rBrace) =>
      let _ ← advance
      return []
    | some .eof | none => fail .unclosedBlock
    | some _ =>
      let s ← statement fuel
      return s :: (← blockBody fuel)

def expression : Nat → Parser Expr
  | 0 => fail .exhausted
  | fuel + 1 => do
    match ← peek, ← peekNext with
    | some (.ident _), some (.symbol .assign) | some (.ident _), some (.compound _) =>
      assignment fuel
    | _, _ => binary 0 fuel

def assignment : Nat → Parser Expr
  | 0 => fail .exhausted
  | fuel + 1 => do
    let span ← here
    let target ← expectName .assignTarget
    let op ← match ← advance with
      | some (.compound op) =>
        match BinaryOp.ofCompound? op with
        | some op => pure (some op)
        | none => fail (.notCompound op)
      | _ => pure none
    let value ← expression fuel
    return .assign (← mark span) target op value

def binary (level : Nat) : Nat → Parser Expr
  | 0 => fail .exhausted
  | fuel + 1 => do
    if level = 10 then power fuel
    else binaryRest level (← binary (level + 1) fuel) fuel

def binaryRest (level : Nat) (left : Expr) : Nat → Parser Expr
  | 0 => fail .exhausted
  | fuel + 1 => do
    let span ← here
    match ← peek with
    | some (.symbol s) =>
      match BinaryOp.ofSymbol? s with
      | some op =>
        if op.level = level then
          let _ ← advance
          let right ← binary (level + 1) fuel
          binaryRest level (.binary (← mark span) op left right) fuel
        else return left
      | none => return left
    | _ => return left

def power : Nat → Parser Expr
  | 0 => fail .exhausted
  | fuel + 1 => do
    let base ← unary fuel
    let span ← here
    if ← eat .starStar then
      let exponent ← power fuel
      return .binary (← mark span) .pow base exponent
    else return base

def unary : Nat → Parser Expr
  | 0 => fail .exhausted
  | fuel + 1 => do
    let span ← here
    match ← peek with
    | some (.symbol s) =>
      match UnaryOp.ofSymbol? s with
      | some op =>
        let _ ← advance
        let operand ← unary fuel
        return .unary (← mark span) op operand
      | none => suffixes (← primary fuel) fuel
    | _ => suffixes (← primary fuel) fuel

def suffixes (e : Expr) : Nat → Parser Expr
  | 0 => fail .exhausted
  | fuel + 1 => do
    let span ← here
    match ← peek with
    | some (.symbol .lParen) =>
      let _ ← advance
      let args ← arguments fuel
      expect .rParen .closeArgs
      suffixes (.call (← mark span) e args) fuel
    | some (.symbol .dot) =>
      let _ ← advance
      let key ← match ← advance with
        | some (.ident name) => pure (PropertyName.name name)
        | some (.integer n) => pure (PropertyName.int n)
        | _ => fail .missingMember
      suffixes (.member (← mark span) e (.known key)) fuel
    | some (.symbol .lBracket) =>
      let _ ← advance
      let key ← expression fuel
      expect .rBracket .closeIndex
      suffixes (.member (← mark span) e (.computed key)) fuel
    | some (.symbol s) =>
      match StepOp.ofSymbol? s with
      | some op =>
        match e with
        | .ident v name =>
          let _ ← advance
          suffixes (.step (← mark span) op name v) fuel
        | _ => fail (.stepOfNonVariable s)
      | none => return e
    | _ => return e

def arguments : Nat → Parser (List Arg)
  | 0 => fail .exhausted
  | fuel + 1 => do
    if ← isNext .rParen then return []
    let name ← match ← peek, ← peekNext with
      | some (.ident name), some (.symbol .colon) => do
        let _ ← advance
        let _ ← advance
        pure (some name)
      | _, _ => pure none
    let arg := Arg.mk name (← expression fuel)
    if ← eat .comma then return arg :: (← arguments fuel) else return [arg]

def primary : Nat → Parser Expr
  | 0 => fail .exhausted
  | fuel + 1 => do
    let span ← here
    match ← peek with
    | none => fail .endOfInput
    | some (.ident name) =>
      let _ ← advance
      return .ident (← mark span) name
    | some (.symbol .lParen) =>
      let _ ← advance
      let inner ← expression fuel
      expect .rParen .closeGrouping
      return .grouping (← mark span) inner
    | some (.keyword .kwFn) =>
      let _ ← advance
      let (params, ret) ← signature fuel
      let body ← block fuel
      return .function (← mark span) params ret body
    | some (.symbol .lBrace) =>
      let _ ← advance
      let properties ← properties fuel
      expect .rBrace .closeObject
      return .object (← mark span) properties
    | some token =>
      match literal? token with
      | some value =>
        let _ ← advance
        return .literal (← mark span) value
      | none => fail (.noExpression token)

def properties : Nat → Parser (List Property)
  | 0 => fail .exhausted
  | fuel + 1 => do
    if ← isNext .rBrace then return []
    let key ← match ← advance with
      | some (.ident name) | some (.string name) => pure (Key.known (.name name))
      | some (.integer n) => pure (Key.known (.int n))
      | some (.symbol .lBracket) => do
        let key ← expression fuel
        expect .rBracket .closeComputedKey
        pure (Key.computed key)
      | _ => fail .missingKey
    expect .colon .afterKey
    let property := Property.mk key (← expression fuel)
    if ← eat .comma then return property :: (← properties fuel) else return [property]

end

def statements : Nat → Parser (List Stmt)
  | 0 => fail .exhausted
  | fuel + 1 => do
    match ← peek with
    | some .eof | none => return []
    | some _ =>
      let s ← statement fuel
      return s :: (← statements fuel)

def descent : Nat := 32

def bound (tokens : List Spanned) : Nat := descent * (tokens.length + 1)

def bounded (rule : Nat → Parser α) : Parser α := fun c => rule (bound c.rest) c

def isLayout : Token → Bool
  | .comment _ | .newline => true
  | _ => false

def start (tokens : List Spanned) : Cursor := ⟨tokens.filter (!isLayout ·.token), none, 0⟩

def program : Parser Program := bounded statements

end Parser

def parse (tokens : List Spanned) : Except ParseError Program :=
  (Parser.program (Parser.start tokens)).map (·.1)

end Quill
