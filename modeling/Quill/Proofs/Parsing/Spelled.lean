import Quill.Syntax.Parser

/-! Expressions without functions and objects as tokens. A tree is spelled in order; it fits if each
operand binds at least as tightly as its place in the grammar asks for, so that looser operands
stand in brackets. -/
namespace Quill

def BinaryOp.symbol : BinaryOp → Symbol
  | add => .plus
  | sub => .minus
  | mul => .star
  | div => .slash
  | intDiv => .slashSlash
  | mod => .percent
  | pow => .starStar
  | bitAnd => .amp
  | bitOr => .pipe
  | bitXor => .caret
  | shl => .shl
  | shr => .shr
  | and => .ampAmp
  | or => .pipePipe
  | eq => .eqEq
  | notEq => .notEq
  | lt => .lt
  | ltEq => .ltEq
  | gt => .gt
  | gtEq => .gtEq

theorem BinaryOp.ofSymbol?_symbol (op : BinaryOp) : ofSymbol? op.symbol = some op := by
  cases op <;> rfl

theorem BinaryOp.symbolOfSymbol? {s : Symbol} {op : BinaryOp} (found : ofSymbol? s = some op) :
    s = op.symbol := by
  cases s <;> cases found <;> rfl

theorem BinaryOp.levelAtMost (op : BinaryOp) : op.level ≤ 10 := by cases op <;> decide

def UnaryOp.symbol : UnaryOp → Symbol
  | negate => .minus
  | plus => .plus
  | not => .bang
  | bitNot => .tilde

theorem UnaryOp.ofSymbol?_symbol (op : UnaryOp) : ofSymbol? op.symbol = some op := by
  cases op <;> rfl

def StepOp.symbol : StepOp → Symbol
  | increment => .plusPlus
  | decrement => .minusMinus

def Literal.token : Literal → Token
  | .int n => .integer n
  | .float x => .float x
  | .string s => .string s
  | .char c => .char c
  | .bool b => .bool b
  | .none => .none

theorem Literal.token_ne (value : Literal) (s : Symbol) : value.token ≠ .symbol s := by
  cases value <;> nofun

def PropertyName.token : PropertyName → Token
  | .name s => .ident s
  | .int n => .integer n

def nameTokens : Option String → List Token
  | none => []
  | some name => [.ident name, .symbol .colon]

mutual

def Expr.tokens : Expr → List Token
  | .literal _ value => [value.token]
  | .ident _ name => [.ident name]
  | .binary _ op left right => left.tokens ++ .symbol op.symbol :: right.tokens
  | .unary _ op operand => .symbol op.symbol :: operand.tokens
  | .step _ op name _ => [.ident name, .symbol op.symbol]
  | .assign _ name none value => .ident name :: .symbol .assign :: value.tokens
  | .assign _ name (some op) value => .ident name :: .compound (.symbol op.symbol) :: value.tokens
  | .call _ callee args => callee.tokens ++ .symbol .lParen :: (argTokens args ++ [.symbol .rParen])
  | .member _ object (.known name) => object.tokens ++ [.symbol .dot, name.token]
  | .member _ object (.computed key) =>
    object.tokens ++ .symbol .lBracket :: (key.tokens ++ [.symbol .rBracket])
  | .grouping _ inner => .symbol .lParen :: (inner.tokens ++ [.symbol .rParen])
  | .function .. | .object .. => []

def argTokens : List Arg → List Token
  | [] => []
  | [.mk name value] => nameTokens name ++ value.tokens
  | .mk name value :: next :: rest =>
    nameTokens name ++ (value.tokens ++ .symbol .comma :: argTokens (next :: rest))

end

/-- How tightly an expression holds together, which is the tightest place that it may have: a whole
expression has place 0, an operand at a level of binary operators the place above the level, the
operand of a prefix operator place 12, and what a suffix is put behind place 13. -/
def Expr.level : Expr → Nat
  | .assign .. => 0
  | .binary _ op _ _ => op.level + 1
  | .unary .. => 12
  | _ => 13

def BinaryOp.places (op : BinaryOp) : Nat × Nat :=
  if op = .pow then (op.level + 2, op.level + 1) else (op.level + 1, op.level + 2)

mutual

/-- Each operand fits its place; there are no functions and objects. -/
def Expr.Fits : Expr → Prop
  | .literal .. | .ident .. | .step .. => True
  | .binary _ op left right =>
    (op.places.1 ≤ left.level ∧ left.Fits) ∧ op.places.2 ≤ right.level ∧ right.Fits
  | .unary _ _ operand => 12 ≤ operand.level ∧ operand.Fits
  | .assign _ _ none value => value.Fits
  | .assign _ _ (some op) value => op.symbol.isCompoundable ∧ value.Fits
  | .call _ callee args => (13 ≤ callee.level ∧ callee.Fits) ∧ argsFit args
  | .member _ object (.known _) => 13 ≤ object.level ∧ object.Fits
  | .member _ object (.computed key) => (13 ≤ object.level ∧ object.Fits) ∧ key.Fits
  | .grouping _ inner => inner.Fits
  | .function .. | .object .. => False

def argsFit : List Arg → Prop
  | [] => True
  | .mk _ value :: rest => value.Fits ∧ argsFit rest

end

mutual

inductive Expr.Same : Expr → Expr → Prop where
  | literal (m m' : Mark) (value : Literal) : Expr.Same (.literal m value) (.literal m' value)
  | ident (m m' : Mark) (name : String) : Expr.Same (.ident m name) (.ident m' name)
  | binary (m m' : Mark) (op : BinaryOp) {left left' right right' : Expr}
      (lefts : left.Same left') (rights : right.Same right') :
      Expr.Same (.binary m op left right) (.binary m' op left' right')
  | unary (m m' : Mark) (op : UnaryOp) {operand operand' : Expr}
      (operands : operand.Same operand') :
      Expr.Same (.unary m op operand) (.unary m' op operand')
  | step (m m' : Mark) (op : StepOp) (name : String) (v v' : Mark) :
      Expr.Same (.step m op name v) (.step m' op name v')
  | assign (m m' : Mark) (name : String) (op : Option BinaryOp) {value value' : Expr}
      (values : value.Same value') : Expr.Same (.assign m name op value) (.assign m' name op value')
  | call (m m' : Mark) {callee callee' : Expr} {args args' : List Arg}
      (callees : callee.Same callee') (given : ArgsSame args args') :
      Expr.Same (.call m callee args) (.call m' callee' args')
  | member (m m' : Mark) (name : PropertyName) {object object' : Expr}
      (objects : object.Same object') :
      Expr.Same (.member m object (.known name)) (.member m' object' (.known name))
  | index (m m' : Mark) {object object' key key' : Expr} (objects : object.Same object')
      (keys : key.Same key') :
      Expr.Same (.member m object (.computed key)) (.member m' object' (.computed key'))
  | grouping (m m' : Mark) {inner inner' : Expr} (inners : inner.Same inner') :
      Expr.Same (.grouping m inner) (.grouping m' inner')

inductive ArgsSame : List Arg → List Arg → Prop where
  | nil : ArgsSame [] []
  | cons (name : Option String) {value value' : Expr} {rest rest' : List Arg}
      (values : value.Same value') (others : ArgsSame rest rest') :
      ArgsSame (.mk name value :: rest) (.mk name value' :: rest')

end

/-- A token goes on with an expression before it in the places below its reach; with reach 0 it
cannot follow as a part of the expression. -/
def Token.reach : Token → Nat
  | .symbol .lParen | .symbol .dot | .symbol .lBracket | .symbol .plusPlus
  | .symbol .minusMinus => 14
  | .symbol .assign | .compound _ => 1
  | .symbol s => ((BinaryOp.ofSymbol? s).map fun op => op.level + 2).getD 0
  | _ => 0

theorem BinaryOp.symbolReach (op : BinaryOp) :
    (Token.symbol op.symbol).reach = op.level + 2 := by
  cases op <;> rfl

def Stops (place : Nat) (after : List Token) : Prop := ∀ t, after.head? = some t → t.reach ≤ place

theorem Stops.cons {place : Nat} {t : Token} (short : t.reach ≤ place) (rest : List Token) :
    Stops place (t :: rest) := by
  rintro _ ⟨⟩
  exact short

theorem Stops.mono {place tighter : Nat} {after : List Token} (stops : Stops place after)
    (above : place ≤ tighter) : Stops tighter after :=
  fun t held => Nat.le_trans (stops t held) above

theorem BinaryOp.placesAbove (op : BinaryOp) :
    op.level + 1 ≤ op.places.1 ∧ op.level + 1 ≤ op.places.2 := by
  unfold BinaryOp.places
  split <;> exact ⟨by omega, by omega⟩

theorem firstToken : (e : Expr) → e.Fits → ∃ t more, e.tokens = t :: more ∧
    t ≠ .symbol .rParen ∧ (13 ≤ e.level → ∀ s, t = .symbol s → UnaryOp.ofSymbol? s = none)
  | .literal _ value, _ =>
    ⟨_, _, rfl, value.token_ne _, fun _ s same => absurd same (value.token_ne s)⟩
  | .ident .., _ => ⟨_, _, rfl, nofun, nofun⟩
  | .step .., _ => ⟨_, _, rfl, nofun, nofun⟩
  | .assign _ _ none _, _ => ⟨_, _, rfl, nofun, nofun⟩
  | .assign _ _ (some _) _, _ => ⟨_, _, rfl, nofun, nofun⟩
  | .grouping .., _ => ⟨_, _, rfl, nofun, fun _ _ same => by cases same; rfl⟩
  | .unary _ op _, _ => by
    refine ⟨_, _, rfl, ?_, fun tight => absurd tight (by simp [Expr.level])⟩
    cases op <;> nofun
  | .binary _ op left _, fits => by
    obtain ⟨t, more, spelled, opens, -⟩ := firstToken left fits.1.2
    refine ⟨t, _, by rw [Expr.tokens, spelled]; rfl, opens, fun tight => absurd tight ?_⟩
    have := op.levelAtMost
    simp only [Expr.level]
    omega
  | .call _ callee _, fits => by
    obtain ⟨t, more, spelled, opens, bare⟩ := firstToken callee fits.1.2
    exact ⟨t, _, by rw [Expr.tokens, spelled]; rfl, opens, fun _ => bare fits.1.1⟩
  | .member _ object (.known _), fits => by
    obtain ⟨t, more, spelled, opens, bare⟩ := firstToken object fits.2
    exact ⟨t, _, by rw [Expr.tokens, spelled]; rfl, opens, fun _ => bare fits.1⟩
  | .member _ object (.computed _), fits => by
    obtain ⟨t, more, spelled, opens, bare⟩ := firstToken object fits.1.2
    exact ⟨t, _, by rw [Expr.tokens, spelled]; rfl, opens, fun _ => bare fits.1.1⟩

theorem Expr.tokens_ne (e : Expr) (fits : e.Fits) : e.tokens ≠ [] := by
  obtain ⟨t, more, spelled, -⟩ := firstToken e fits
  rw [spelled]
  nofun

def NameLeads (reach : Nat) (ts : List Token) : Prop :=
  ∀ name t rest, ts = .ident name :: t :: rest → reach ≤ t.reach

theorem NameLeads.append {reach : Nat} {ts : List Token} {t : Token} (leads : NameLeads reach ts)
    (nonempty : ts ≠ []) (far : reach ≤ t.reach) (more : List Token) :
    NameLeads reach (ts ++ t :: more) := by
  rintro name u rest same
  match ts with
  | [_] => cases same; exact far
  | _ :: _ :: _ => cases same; exact leads name u _ rfl

theorem NameLeads.ahead {reach : Nat} {ts after : List Token} {name : String} {t : Token}
    (leads : NameLeads reach ts) (nonempty : ts ≠ [])
    (first : (ts ++ after).head? = some (.ident name))
    (second : (ts ++ after).tail.head? = some t) : after.head? = some t ∨ reach ≤ t.reach := by
  match ts with
  | [_] => exact .inl second
  | _ :: _ :: _ => cases first; cases second; exact .inr (leads name t _ rfl)

theorem nameLeads : (e : Expr) → e.Fits → 1 ≤ e.level → NameLeads 2 e.tokens
  | .literal _ value, _, _ => by cases value <;> nofun
  | .ident .., _, _ => nofun
  | .step _ op _ _, _, _ => by
    rintro _ _ _ ⟨⟩
    cases op <;> decide
  | .grouping .., _, _ => nofun
  | .unary .., _, _ => nofun
  | .binary _ op left _, fits, _ => by
    have above := op.placesAbove
    refine (nameLeads left fits.1.2 (Nat.le_trans (by omega) fits.1.1)).append
      (left.tokens_ne fits.1.2) ?_ _
    rw [op.symbolReach]
    omega
  | .call _ callee _, fits, _ =>
    (nameLeads callee fits.1.2 (Nat.le_trans (by decide) fits.1.1)).append
      (callee.tokens_ne fits.1.2) (by decide) _
  | .member _ object (.known _), fits, _ =>
    (nameLeads object fits.2 (Nat.le_trans (by decide) fits.1)).append (object.tokens_ne fits.2)
      (by decide) _
  | .member _ object (.computed _), fits, _ =>
    (nameLeads object fits.1.2 (Nat.le_trans (by decide) fits.1.1)).append
      (object.tokens_ne fits.1.2) (by decide) _

theorem nameGoesOn (e : Expr) (fits : e.Fits) : NameLeads 1 e.tokens := by
  by_cases operand : 1 ≤ e.level
  · exact fun name t rest same => Nat.le_of_succ_le (nameLeads e fits operand name t rest same)
  · cases e with
    | assign _ _ op _ => cases op <;> rintro _ _ _ ⟨⟩ <;> exact Nat.le_refl 1
    | _ => exact absurd (by simp [Expr.level]) operand

end Quill
