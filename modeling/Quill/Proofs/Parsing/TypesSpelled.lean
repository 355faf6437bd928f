import Quill.Proofs.Lexing.Lexemes
import Quill.Proofs.Parsing.Spelled

/-! Types as tokens. A type is spelled in order, without blanks but for two places: behind `mut`, and
between two closing angle brackets, which together would be the operator `>>`. It fits if looser
types stand in brackets inside tighter ones. -/
namespace Quill

/-- The choices of a writer: which names of members are in quotes, and the sign between members. -/
structure TypeStyle where
  quoted : String → Bool
  between : Symbol
  separates : between = .comma ∨ between = .semicolon

def TypeStyle.key (style : TypeStyle) : PropertyName → Token
  | .name s => if style.quoted s then .string s else .ident s
  | .int n => .integer n

def paramTokens : Option String → Bool → List Token
  | none, _ => []
  | some name, false => [.ident name, .symbol .colon]
  | some name, true => [.ident name, .symbol .question, .symbol .colon]

def separated (s : Symbol) : List (List Token) → List Token
  | [] => []
  | item :: items => item ++ items.flatMap (.symbol s :: ·)

section
variable (style : TypeStyle)

mutual

def TypeExpr.tokens : TypeExpr → List Token
  | .named name [] => [if name = "none" then .none else .ident name]
  | .named name (arg :: args) => .ident name :: .symbol .lt ::
    (separated .comma (arg.tokens :: typesTokens args) ++ [.symbol .gt])
  | .literal value => [value.token]
  | .array element => element.tokens ++ [.symbol .lBracket, .symbol .rBracket]
  | .function params ret => .keyword .kwFn :: .symbol .lParen ::
    (separated .comma (typeParamsTokens params) ++ .symbol .rParen :: .symbol .arrow :: ret.tokens)
  | .interface members =>
    .symbol .lBrace :: (separated style.between (typeMembersTokens members) ++ [.symbol .rBrace])
  | .union members => separated .pipe (typesTokens members)
  | .intersection members => separated .amp (typesTokens members)
  | .parenthesized inner => .symbol .lParen :: (inner.tokens ++ [.symbol .rParen])

def typesTokens : List TypeExpr → List (List Token)
  | [] => []
  | t :: rest => t.tokens :: typesTokens rest

def TypeParam.tokens : TypeParam → List Token
  | .mk name t isOptional => paramTokens name isOptional ++ t.tokens

def typeParamsTokens : List TypeParam → List (List Token)
  | [] => []
  | p :: rest => p.tokens :: typeParamsTokens rest

def TypeMember.tokens : TypeMember → List Token
  | .property key t mutable =>
    (if mutable then [.keyword .kwMut] else []) ++ style.key key :: .symbol .colon :: t.tokens
  | .index key t =>
    .symbol .lBracket :: (key.tokens ++ .symbol .rBracket :: .symbol .colon :: t.tokens)

def typeMembersTokens : List TypeMember → List (List Token)
  | [] => []
  | m :: rest => m.tokens :: typeMembersTokens rest

end

end

/-- How tightly a type holds together, which is the tightest place that it may have: a whole type has
place 0, a member of a union place 1, one of an intersection place 2, as the elements of an array. -/
def TypeExpr.level : TypeExpr → Nat
  | .union _ | .function .. => 0
  | .intersection _ => 1
  | .array _ => 2
  | _ => 3

mutual

/-- Each part fits its place. The literal `none` is a type by name, only parameters with a name can
be optional, and a union or an intersection of less than two types cannot be written. -/
def TypeExpr.Fits : TypeExpr → Prop
  | .named _ args => typesFit 0 args
  | .literal value => value ≠ .none
  | .array element => 2 ≤ element.level ∧ element.Fits
  | .function params ret => typeParamsFit params ∧ ret.Fits
  | .interface members => typeMembersFit members
  | .union members => 2 ≤ members.length ∧ typesFit 1 members
  | .intersection members => 2 ≤ members.length ∧ typesFit 2 members
  | .parenthesized inner => inner.Fits

def typesFit (place : Nat) : List TypeExpr → Prop
  | [] => True
  | t :: rest => (place ≤ t.level ∧ t.Fits) ∧ typesFit place rest

def TypeParam.Fits : TypeParam → Prop
  | .mk name t isOptional => (isOptional → name.isSome) ∧ t.Fits

def typeParamsFit : List TypeParam → Prop
  | [] => True
  | p :: rest => p.Fits ∧ typeParamsFit rest

def TypeMember.Fits : TypeMember → Prop
  | .property _ t _ => t.Fits
  | .index key t => key.Fits ∧ t.Fits

def typeMembersFit : List TypeMember → Prop
  | [] => True
  | m :: rest => m.Fits ∧ typeMembersFit rest

end

open Lexer (mayTouch Spaced)

def typeGap : Token → Option Token → List Char
  | .keyword .kwMut, _ => [' ']
  | .symbol .gt, some (.symbol .gt) => [' ']
  | _, _ => []

theorem typeGapBlank (t : Token) (u : Option Token) : ∀ c ∈ typeGap t u, Lexer.isBlank c := by
  fun_cases typeGap t u <;> simp [Lexer.isBlank]

/-! What may follow what. -/

def Token.opensType : Token → Bool
  | .ident _ | .none | .integer _ | .float _ | .string _ | .char _ | .bool _ | .keyword .kwFn
  | .keyword .kwMut | .symbol .lParen | .symbol .lBrace | .symbol .lBracket => true
  | _ => false

def Token.closesType : Token → Bool
  | .ident _ | .none | .integer _ | .float _ | .string _ | .char _ | .bool _ | .symbol .rBracket
  | .symbol .rParen | .symbol .rBrace | .symbol .gt => true
  | _ => false

def leads : List Symbol :=
  [.lParen, .lt, .lBrace, .lBracket, .comma, .semicolon, .colon, .pipe, .amp, .arrow]

def trails : List Symbol :=
  [.comma, .semicolon, .rParen, .rBrace, .rBracket, .gt, .lBracket, .pipe, .amp]

theorem symbolListed (s : Symbol) : s ∈ Symbol.all := by cases s <;> decide

theorem leadSpaced {s : Symbol} (leading : s ∈ leads) {u : Token} (opens : u.opensType) :
    Spaced typeGap (.symbol s) u := by
  have brackets : leads.all fun s => Symbol.all.all fun t =>
    (Token.symbol t).opensType → mayTouch (.symbol s) (.symbol t) := by decide +kernel
  cases u with
  | symbol t =>
    have touch := List.all_eq_true.mp (List.all_eq_true.mp brackets s leading) t (symbolListed t)
    exact .inr (of_decide_eq_true touch opens)
  | _ => exact .inr rfl

theorem trailSpaced {t : Token} (closes : t.closesType) {s : Symbol} (trailing : s ∈ trails) :
    Spaced typeGap t (.symbol s) := by
  have brackets : trails.all fun s => Symbol.all.all fun t => (Token.symbol t).closesType →
    t = .gt ∧ s = .gt ∨ mayTouch (.symbol t) (.symbol s) := by decide +kernel
  have noPoint : trails.all fun s => s ≠ .dot := by decide
  cases t with
  | symbol t =>
    have touch := List.all_eq_true.mp (List.all_eq_true.mp brackets s trailing) t (symbolListed t)
    rcases of_decide_eq_true touch closes with ⟨rfl, rfl⟩ | touch
    · exact .inl nofun
    · exact .inr touch
  | string | char => exact .inr rfl
  | _ => exact .inr (List.all_eq_true.mp noPoint s trailing)

/-- Tokens that stand in a type: no two would run together, and they begin and end so. -/
structure Phrase (tokens : List Token) : Prop where
  nonempty : tokens ≠ []
  spaced : tokens.IsChain (Spaced typeGap)
  opens : ∀ t ∈ tokens.head?, t.opensType
  closes : ∀ t ∈ tokens.getLast?, t.closesType

namespace Phrase

variable {tokens more : List Token} {s c : Symbol}

theorem one {t : Token} (opens : t.opensType) (closes : t.closesType) : Phrase [t] :=
  ⟨nofun, .singleton t, by rintro _ ⟨⟩; exact opens, by rintro _ ⟨⟩; exact closes⟩

theorem firstNe (phrase : Phrase tokens) {t : Token} (other : t.opensType = false)
    (more : List Token) : (tokens ++ more).head? ≠ some t := by
  rw [List.head?_append_of_ne_nil _ phrase.nonempty]
  intro first
  cases other.symm.trans (phrase.opens t first)

theorem lead (phrase : Phrase tokens) (leading : s ∈ leads) :
    (.symbol s :: tokens).IsChain (Spaced typeGap) :=
  List.isChain_cons.mpr ⟨fun u first => leadSpaced leading (phrase.opens u first), phrase.spaced⟩

theorem trail (phrase : Phrase tokens) (trailing : s ∈ trails)
    (rest : (.symbol s :: more).IsChain (Spaced typeGap)) :
    (tokens ++ .symbol s :: more).IsChain (Spaced typeGap) := by
  refine List.isChain_append.mpr ⟨phrase.spaced, rest, ?_⟩
  rintro t last _ ⟨⟩
  exact trailSpaced (phrase.closes t last) trailing

theorem behind (phrase : Phrase tokens) (ends : tokens <:+ more)
    (opens : ∀ t ∈ more.head?, t.opensType) (spaced : more.IsChain (Spaced typeGap)) :
    Phrase more := by
  obtain ⟨front, rfl⟩ := ends
  refine ⟨by simp [phrase.nonempty], spaced, opens, ?_⟩
  rw [List.getLast?_append_of_ne_nil _ phrase.nonempty]
  exact phrase.closes

theorem closed {t : Token} (closes : t.closesType) (opens : ∀ u ∈ (more ++ [t]).head?, u.opensType)
    (spaced : (more ++ [t]).IsChain (Spaced typeGap)) : Phrase (more ++ [t]) := by
  refine ⟨by simp, spaced, opens, ?_⟩
  rw [List.getLast?_concat]
  rintro _ ⟨⟩
  exact closes

theorem joined (first : Phrase tokens) (second : Phrase more) (leading : s ∈ leads)
    (trailing : s ∈ trails) : Phrase (tokens ++ .symbol s :: more) := by
  have ends : more <:+ tokens ++ .symbol s :: more :=
    (List.suffix_cons _ _).trans (List.suffix_append _ _)
  refine second.behind ends ?_ (first.trail trailing (second.lead leading))
  rw [List.head?_append_of_ne_nil _ first.nonempty]
  exact first.opens

theorem row {item : List Token} {items : List (List Token)}
    (phrases : ∀ i ∈ item :: items, Phrase i) (leading : s ∈ leads) (trailing : s ∈ trails) :
    Phrase (separated s (item :: items)) := by
  induction items generalizing item with
  | nil => simpa [separated] using phrases item
  | cons next items ih =>
    obtain ⟨first, others⟩ := List.forall_mem_cons.mp phrases
    exact first.joined (ih others) leading trailing

theorem rowOrNothing {items : List (List Token)} (phrases : ∀ i ∈ items, Phrase i)
    (leading : s ∈ leads) (trailing : s ∈ trails) :
    separated s items = [] ∨ Phrase (separated s items) := by
  cases items with
  | nil => exact .inl rfl
  | cons item items => exact .inr (row phrases leading trailing)

theorem bracketed (phrase : tokens = [] ∨ Phrase tokens) (leading : s ∈ leads)
    (trailing : c ∈ trails) (touch : mayTouch (.symbol s) (.symbol c))
    (rest : (.symbol c :: more).IsChain (Spaced typeGap)) :
    (.symbol s :: (tokens ++ .symbol c :: more)).IsChain (Spaced typeGap) := by
  rcases phrase with rfl | phrase
  · exact .cons_cons (.inr touch) rest
  · refine List.isChain_cons.mpr ⟨?_, phrase.trail trailing rest⟩
    rw [List.head?_append_of_ne_nil _ phrase.nonempty]
    exact fun u first => leadSpaced leading (phrase.opens u first)

end Phrase

variable (style : TypeStyle)

theorem TypeStyle.keyOpens (key : PropertyName) : (style.key key).opensType := by
  cases key with
  | name s =>
    rw [TypeStyle.key]
    split <;> rfl
  | int => rfl

theorem TypeStyle.keySpaced (key : PropertyName) {tokens : List Token} (phrase : Phrase tokens) :
    (style.key key :: .symbol .colon :: tokens).IsChain (Spaced typeGap) := by
  -- Behind a key, and behind the name of a parameter, stands a colon.
  refine .cons_cons (.inr ?_) (phrase.lead (by decide))
  cases key with
  | name s =>
    rw [TypeStyle.key]
    split <;> rfl
  | int => rfl

theorem paramPhrase (name : Option String) (isOptional : Bool) {tokens : List Token}
    (phrase : Phrase tokens) : Phrase (paramTokens name isOptional ++ tokens) := by
  have colon := phrase.lead (s := .colon) (by decide)
  have question : mayTouch (.symbol .question) (.symbol .colon) := by decide +kernel
  cases name with
  | none => exact phrase
  | some name =>
    refine phrase.behind (List.suffix_append _ _) ?_ ?_
    · cases isOptional <;> rintro _ ⟨⟩ <;> rfl
    · cases isOptional with
      | false => exact .cons_cons (.inr rfl) colon
      | true => exact .cons_cons (.inr rfl) (.cons_cons (.inr question) colon)

mutual

theorem typePhrase : (t : TypeExpr) → t.Fits → Phrase (t.tokens style)
  | .named name [], _ => by
    rw [TypeExpr.tokens]
    split <;> exact .one rfl rfl
  | .named name (arg :: args), fits => by
    have row := Phrase.row (s := .comma) (typesPhrases (arg :: args) fits) (by decide) (by decide)
    have angled := Phrase.bracketed (s := .lt) (c := .gt) (.inr row) (by decide) (by decide)
      (by decide +kernel) (.singleton _)
    rw [TypeExpr.tokens, ← List.cons_append, ← List.cons_append]
    exact .closed rfl (by rintro _ ⟨⟩; rfl) (.cons_cons (.inr rfl) angled)
  | .literal value, fits => by cases value <;> exact .one rfl rfl
  | .array element, fits => by
    have phrase := typePhrase element fits.2
    have touch : mayTouch (.symbol .lBracket) (.symbol .rBracket) := by decide +kernel
    rw [TypeExpr.tokens, List.append_cons]
    refine .closed rfl ?_ ?_
    · rw [← List.append_cons, List.head?_append_of_ne_nil _ phrase.nonempty]
      exact phrase.opens
    · rw [← List.append_cons]
      exact phrase.trail (by decide) (.cons_cons (.inr touch) (.singleton _))
  | .function params ret, fits => by
    have row := Phrase.rowOrNothing (s := .comma) (typeParamsPhrases params fits.1) (by decide)
      (by decide)
    have result := typePhrase ret fits.2
    have touch : mayTouch (.symbol .rParen) (.symbol .arrow) := by decide +kernel
    have spaced := Phrase.bracketed (s := .lParen) row (by decide) (by decide) (by decide +kernel)
      (.cons_cons (.inr touch) (result.lead (s := .arrow) (by decide)))
    rw [TypeExpr.tokens]
    refine result.behind ?_ (by rintro _ ⟨⟩; rfl) (.cons_cons (.inr rfl) spaced)
    exact ((List.suffix_append [_, _] _).trans (List.suffix_append _ _)).trans
      (List.suffix_append [_, _] _)
  | .interface members, fits => by
    have row := Phrase.rowOrNothing (s := style.between) (typeMembersPhrases members fits)
      (by rcases style.separates with same | same <;> rw [same] <;> decide)
      (by rcases style.separates with same | same <;> rw [same] <;> decide)
    rw [TypeExpr.tokens, ← List.cons_append]
    exact .closed rfl (by rintro _ ⟨⟩; rfl)
      (Phrase.bracketed row (by decide) (by decide) (by decide +kernel) (.singleton _))
  | .union (t :: rest), fits => by
    rw [TypeExpr.tokens]
    exact .row (typesPhrases (t :: rest) fits.2) (by decide) (by decide)
  | .intersection (t :: rest), fits => by
    rw [TypeExpr.tokens]
    exact .row (typesPhrases (t :: rest) fits.2) (by decide) (by decide)
  | .union [], fits | .intersection [], fits => absurd fits.1 (by decide)
  | .parenthesized inner, fits => by
    have phrase := typePhrase inner fits
    rw [TypeExpr.tokens, ← List.cons_append]
    exact .closed rfl (by rintro _ ⟨⟩; rfl)
      (Phrase.bracketed (.inr phrase) (by decide) (by decide) (by decide +kernel) (.singleton _))

theorem typesPhrases {place : Nat} : (ts : List TypeExpr) → typesFit place ts →
    ∀ i ∈ typesTokens style ts, Phrase i
  | [], _ => nofun
  | t :: rest, fits => List.forall_mem_cons.mpr ⟨typePhrase t fits.1.2, typesPhrases rest fits.2⟩

theorem typeParamPhrase : (p : TypeParam) → p.Fits → Phrase (p.tokens style)
  | .mk name t isOptional, fits => by
    rw [TypeParam.tokens]
    exact paramPhrase name isOptional (typePhrase t fits.2)

theorem typeParamsPhrases : (params : List TypeParam) → typeParamsFit params →
    ∀ i ∈ typeParamsTokens style params, Phrase i
  | [], _ => nofun
  | p :: rest, fits =>
    List.forall_mem_cons.mpr ⟨typeParamPhrase p fits.1, typeParamsPhrases rest fits.2⟩

theorem typeMemberPhrase : (m : TypeMember) → m.Fits → Phrase (m.tokens style)
  | .property key t mutable, fits => by
    have phrase := typePhrase t fits
    have spaced := style.keySpaced key phrase
    rw [TypeMember.tokens]
    refine phrase.behind ((List.suffix_append [_, _] _).trans (List.suffix_append _ _)) ?_ ?_
    · cases mutable <;> rintro _ ⟨⟩
      · exact style.keyOpens key
      · rfl
    · cases mutable with
      | true => exact .cons_cons (.inl nofun) spaced
      | false => exact spaced
  | .index key t, fits => by
    have phrase := typePhrase t fits.2
    have touch : mayTouch (.symbol .rBracket) (.symbol .colon) := by decide +kernel
    rw [TypeMember.tokens]
    refine phrase.behind ?_ (by rintro _ ⟨⟩; rfl) ?_
    · exact ((List.suffix_append [_, _] _).trans (List.suffix_append _ _)).trans
        (List.suffix_cons _ _)
    · exact Phrase.bracketed (.inr (typePhrase key fits.1)) (by decide) (by decide)
        (by decide +kernel) (.cons_cons (.inr touch) (phrase.lead (by decide)))

theorem typeMembersPhrases : (members : List TypeMember) → typeMembersFit members →
    ∀ i ∈ typeMembersTokens style members, Phrase i
  | [], _ => nofun
  | m :: rest, fits =>
    List.forall_mem_cons.mpr ⟨typeMemberPhrase m fits.1, typeMembersPhrases rest fits.2⟩

end

end Quill
