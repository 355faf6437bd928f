import Quill.Proofs.Parsing.Takes
import Quill.Proofs.Parsing.TypesSpelled

/-! Types read back from their tokens, and from their text. Each rule of the parser takes the types
that may have its place; from the tightest place of a type down, the looser rules find nothing of
their own behind it. -/
namespace Quill
open Quill.Parser

def Token.typeReach : Token → Nat
  | .symbol .lt => 4
  | .symbol .lBracket => 3
  | .symbol .amp => 2
  | .symbol .pipe => 1
  | _ => 0

def TypeStops (place : Nat) (after : List Token) : Prop :=
  ∀ t, after.head? = some t → t.typeReach ≤ place

theorem TypeStops.cons {place : Nat} {t : Token} (short : t.typeReach ≤ place)
    (rest : List Token) : TypeStops place (t :: rest) := by
  rintro _ ⟨⟩
  exact short

theorem TypeStops.mono {place tighter : Nat} {after : List Token} (stops : TypeStops place after)
    (above : place ≤ tighter) : TypeStops tighter after :=
  fun t held => Nat.le_trans (stops t held) above

theorem TypeStops.not {place : Nat} {after : List Token} (stops : TypeStops place after) {t : Token}
    (far : place < t.typeReach) : after.head? ≠ some t :=
  fun ahead => absurd (stops t ahead) (Nat.not_le_of_lt far)

section
variable (style : TypeStyle)

def TypeExpr.ReadsBy (t : TypeExpr) (rule : Nat → Parser TypeExpr) (place cost : Nat) : Prop :=
  ∀ fuel after, 16 * (t.tokens style).length + cost ≤ fuel → TypeStops place after →
    Takes (rule fuel) (t.tokens style ++ after) after (· = t)

def TypeExpr.LeadsInto (t : TypeExpr) (place : Nat) : Prop :=
  ∀ fuel ts after gives, 16 * (t.tokens style).length ≤ fuel → TypeStops place ts →
    (∀ fuel', fuel ≤ fuel' + (t.tokens style).length → Takes (arraySuffix t fuel') ts after gives) →
    Takes (primaryType fuel >>= fun t' => arraySuffix t' fuel) (t.tokens style ++ ts) after gives

end

section
variable {style : TypeStyle} {t : TypeExpr} {rule : Nat → Parser TypeExpr} {place cost fuel : Nat}
  {after : List Token}

theorem TypeExpr.ReadsBy.intro (paid : 0 < 16 * (t.tokens style).length + cost)
    (reads : ∀ fuel after, 16 * (t.tokens style).length + cost ≤ fuel + 1 → TypeStops place after →
      Takes (rule (fuel + 1)) (t.tokens style ++ after) after (· = t)) :
    t.ReadsBy style rule place cost
  | 0, _, enough, _ => absurd enough (by omega)
  | fuel + 1, after, enough, stops => reads fuel after enough stops

theorem arraySuffixEnd (stops : TypeStops 2 after) :
    Takes (arraySuffix t (fuel + 1)) after after (· = t) := by
  rw [arraySuffix]
  refine (takesIsNext _).step (takesPeekNext.step ?_)
  rw [decide_eq_false (stops.not (by decide)), Bool.false_and, if_neg Bool.false_ne_true]
  exact .pure rfl

theorem typesAfterEnd {sep : Symbol} (stops : TypeStops place after)
    (far : place < (Token.symbol sep).typeReach) :
    Takes (typesAfter sep (fuel + 1)) after after (· = []) := by
  rw [typesAfter]
  exact (takesNothing (stops.not far)).step (.pure rfl)

theorem TypeExpr.ReadsBy.leadsInto (reads : t.ReadsBy style primaryType place 0) :
    t.LeadsInto style place :=
  fun fuel _ _ _ enough stops goesOn =>
    (reads fuel _ enough stops).step (goesOn fuel (Nat.le_add_right _ _))

theorem TypeExpr.ReadsBy.mono (reads : t.ReadsBy style rule place cost) {looser : Nat}
    (below : looser ≤ place) : t.ReadsBy style rule looser cost :=
  fun fuel after enough stops => reads fuel after enough (stops.mono below)

theorem arrayReads (nonempty : t.tokens style ≠ []) (leads : t.LeadsInto style place) {looser : Nat}
    (below : looser ≤ place ∧ looser ≤ 2) : t.ReadsBy style arrayType looser 1 := by
  have long := List.length_pos_iff.mpr nonempty
  refine .intro (by omega) fun fuel after enough stops => ?_
  rw [arrayType]
  refine leads fuel after after _ (by omega) (stops.mono below.1) fun fuel' left => ?_
  obtain ⟨fuel', rfl⟩ : ∃ n, fuel' = n + 1 := ⟨fuel' - 1, by omega⟩
  exact arraySuffixEnd (stops.mono below.2)

theorem intersectionReads (reads : t.ReadsBy style arrayType place 1) (low : place ≤ 1) :
    t.ReadsBy style intersectionType place 2 := by
  refine .intro (by omega) fun fuel after enough stops => ?_
  obtain ⟨fuel, rfl⟩ : ∃ n, fuel = n + 1 := ⟨fuel - 1, by omega⟩
  rw [intersectionType]
  refine (reads _ after (by omega) stops).step ?_
  exact (typesAfterEnd (stops.mono low) (by decide)).step (.pure rfl)

theorem wholeReads (reads : t.ReadsBy style intersectionType 0 2) : t.ReadsBy style type 0 3 := by
  refine .intro (by omega) fun fuel after enough stops => ?_
  obtain ⟨fuel, rfl⟩ : ∃ n, fuel = n + 1 := ⟨fuel - 1, by omega⟩
  rw [type]
  refine (reads _ after (by omega) stops).step ?_
  exact (typesAfterEnd stops (by decide)).step (.pure rfl)

theorem typesAfterRead {sep : Symbol} (reach : (Token.symbol sep).typeReach = place + 1)
    (member : sep = .pipe ∧ rule = intersectionType ∨ sep ≠ .pipe ∧ rule = arrayType)
    (cheap : cost ≤ 15) : ∀ ts : List TypeExpr, (∀ t ∈ ts, t.ReadsBy style rule (place + 1) cost) →
    ∀ fuel after, 16 * ((typesTokens style ts).flatMap (.symbol sep :: ·)).length + 1 ≤ fuel →
      TypeStops place after →
      Takes (typesAfter sep fuel) ((typesTokens style ts).flatMap (.symbol sep :: ·) ++ after) after
        (· = ts)
  | [], _, fuel + 1, after, _, stops => typesAfterEnd stops (by omega)
  | t :: ts, reads, fuel + 1, after, enough, stops => by
    obtain ⟨first, others⟩ := List.forall_mem_cons.mp reads
    have next : TypeStops (place + 1)
        ((typesTokens style ts).flatMap (.symbol sep :: ·) ++ after) := by
      cases ts with
      | nil => exact stops.mono (Nat.le_succ _)
      | cons u us => exact .cons (Nat.le_of_eq reach) _
    simp only [typesTokens, List.flatMap_cons, List.length_append, List.length_cons] at enough
    rw [typesAfter, typesTokens, List.flatMap_cons, List.append_assoc, List.cons_append]
    refine (takesEat sep).step ?_
    rw [if_pos rfl]
    have more := typesAfterRead reach member cheap ts others fuel after (by omega) stops
    have one := first fuel _ (by omega) next
    rcases member with ⟨pipe, rfl⟩ | ⟨other, rfl⟩
    · rw [if_pos pipe]
      exact one.step (more.step (.pure rfl))
    · rw [if_neg other]
      exact one.step (more.step (.pure rfl))

end

theorem separatedOne (s : Symbol) (item : List Token) : separated s [item] = item :=
  List.append_nil item

theorem separatedMore (s : Symbol) (item next : List Token) (items : List (List Token)) :
    separated s (item :: next :: items) = item ++ .symbol s :: separated s (next :: items) := rfl

theorem typeNameLeads (style : TypeStyle) : (t : TypeExpr) → t.Fits → NameLeads 1 (t.tokens style)
  | .named _ [], _ | .literal _, _ => fun _ _ _ same => nomatch (List.cons.inj same).2
  | .named _ (_ :: _), _ => by
    rintro _ _ _ ⟨⟩
    decide
  | .array element, fits => by
    rw [TypeExpr.tokens]
    exact (typeNameLeads style element fits.2).append (typePhrase style element fits.2).nonempty
      (by decide) _
  | .function .., _ | .interface _, _ | .parenthesized _, _ => nofun
  | .union (t :: next :: rest), fits => by
    rw [TypeExpr.tokens, typesTokens, typesTokens, separatedMore]
    exact (typeNameLeads style t fits.2.1.2).append (typePhrase style t fits.2.1.2).nonempty
      (by decide) _
  | .intersection (t :: next :: rest), fits => by
    rw [TypeExpr.tokens, typesTokens, typesTokens, separatedMore]
    exact (typeNameLeads style t fits.2.1.2).append (typePhrase style t fits.2.1.2).nonempty
      (by decide) _
  | .union [], fits | .union [_], fits | .intersection [], fits | .intersection [_], fits =>
    absurd fits.1 (by simp)

structure TypeReadBack (style : TypeStyle) (t : TypeExpr) : Prop where
  suffixed : 2 ≤ t.level → t.LeadsInto style 3
  array : 2 ≤ t.level → t.ReadsBy style arrayType 2 1
  intersection : 1 ≤ t.level → t.ReadsBy style intersectionType 1 2
  whole : t.ReadsBy style type 0 3

inductive TypeReadsItself (style : TypeStyle) (t : TypeExpr) : Prop where
  | suffixed (own : 2 ≤ t.level) (leads : t.LeadsInto style 3)
  | intersection (own : t.level = 1) (reads : t.ReadsBy style intersectionType 1 2)
  | whole (own : t.level = 0) (reads : t.ReadsBy style type 0 3)

theorem TypeReadsItself.readBack {style : TypeStyle} {t : TypeExpr}
    (itself : TypeReadsItself style t) (fits : t.Fits) : TypeReadBack style t := by
  have suffixed (tight : 2 ≤ t.level) : t.LeadsInto style 3 := by
    cases itself <;> first | assumption | omega
  have array (tight : 2 ≤ t.level) : t.ReadsBy style arrayType 2 1 :=
    arrayReads (typePhrase style t fits).nonempty (suffixed tight) (by decide)
  have intersection (tight : 1 ≤ t.level) : t.ReadsBy style intersectionType 1 2 := by
    by_cases tighter : 2 ≤ t.level
    · exact intersectionReads ((array tighter).mono (by decide)) (by decide)
    · cases itself <;> first | assumption | omega
  refine ⟨suffixed, array, intersection, ?_⟩
  by_cases tight : 1 ≤ t.level
  · exact wholeReads ((intersection tight).mono (by decide))
  · cases itself <;> first | assumption | omega

section
variable {style : TypeStyle}

theorem nameReads (name : String) : (TypeExpr.named name []).ReadsBy style primaryType 3 0 := by
  refine .intro (by simp [TypeExpr.tokens]) fun fuel after enough stops => ?_
  rw [primaryType, TypeExpr.tokens]
  refine takesAdvance.step ?_
  by_cases none : name = "none"
  · subst none
    exact .pure rfl
  · rw [if_neg none]
    exact (takesNothing (stops.not (by decide))).step (.pure rfl)

theorem literalTypeReads {value : Literal} (fits : value ≠ .none) :
    (TypeExpr.literal value).ReadsBy style primaryType 3 0 := by
  refine .intro (by simp [TypeExpr.tokens]) fun fuel after enough stops => ?_
  rw [primaryType, TypeExpr.tokens]
  refine takesAdvance.step ?_
  cases value <;> first | exact absurd rfl fits | exact .pure rfl

theorem parenthesizedReads {inner : TypeExpr} (reads : inner.ReadsBy style type 0 3) :
    (TypeExpr.parenthesized inner).ReadsBy style primaryType 3 0 := by
  refine .intro (by simp [TypeExpr.tokens]) fun fuel after enough stops => ?_
  simp only [TypeExpr.tokens, List.length_cons, List.length_append, List.length_nil] at enough
  rw [primaryType, TypeExpr.tokens, List.cons_append, List.append_assoc]
  refine takesAdvance.step ((reads fuel _ (by omega) (.cons (by decide) _)).step ?_)
  exact (takesExpected _ _).bind fun _ _ => .pure rfl

theorem arrayLeads {element : TypeExpr} (leads : element.LeadsInto style 3) :
    (TypeExpr.array element).LeadsInto style 3 := by
  intro fuel ts after gives enough stops goesOn
  simp only [TypeExpr.tokens, List.length_append, List.length_cons, List.length_nil] at enough goesOn
  rw [TypeExpr.tokens, List.append_assoc]
  refine leads fuel _ after gives (by omega) (.cons (by decide) _) fun fuel' left => ?_
  obtain ⟨fuel', rfl⟩ : ∃ n, fuel' = n + 1 := ⟨fuel' - 1, by omega⟩
  rw [arraySuffix]
  refine (takesIsNext _).step (takesPeekNext.step ?_)
  rw [if_pos (by simp)]
  exact takesAdvance.step (takesAdvance.step (goesOn fuel' (by omega)))

theorem typeArgsRead : ∀ (arg : TypeExpr) (args : List TypeExpr),
    (∀ t ∈ arg :: args, t.ReadsBy style type 0 3) → ∀ fuel after,
      16 * (separated .comma (typesTokens style (arg :: args))).length + 4 ≤ fuel →
      Takes (typeArgs fuel)
        (separated .comma (typesTokens style (arg :: args)) ++ .symbol .gt :: after)
        (.symbol .gt :: after) (· = arg :: args)
  | arg, [], reads, fuel + 1, after, enough => by
    rw [typesTokens, typesTokens, separatedOne] at enough ⊢
    rw [typeArgs]
    refine (reads arg List.mem_cons_self fuel _ (by omega) (.cons (by decide) _)).step ?_
    exact (takesNothing (by nofun)).step (.pure rfl)
  | arg, next :: args, reads, fuel + 1, after, enough => by
    obtain ⟨first, others⟩ := List.forall_mem_cons.mp reads
    rw [typesTokens, typesTokens, separatedMore, List.length_append, List.length_cons] at enough
    rw [typeArgs, typesTokens, typesTokens, separatedMore, List.append_assoc]
    refine (first fuel _ (by omega) (.cons (by decide) _)).step ((takesEat _).step ?_)
    exact (typeArgsRead next args others fuel after (by rw [typesTokens]; omega)).step (.pure rfl)

def itemEnds : List Symbol := [.comma, .semicolon, .rParen, .rBrace]

theorem itemStops {s : Symbol} (ends : s ∈ itemEnds) (more : List Token) :
    TypeStops 0 (.symbol s :: more) := by
  have short : itemEnds.all fun s => (Token.symbol s).typeReach ≤ 0 := by decide
  exact .cons (of_decide_eq_true (List.all_eq_true.mp short s ends)) more

def ItemReads {α : Type} (rule : Nat → Parser α) (x : α) (tokens : List Token) : Prop :=
  ∀ fuel s more, 16 * tokens.length + 4 ≤ fuel → s ∈ itemEnds →
    Takes (rule fuel) (tokens ++ .symbol s :: more) (.symbol s :: more) (· = x)

theorem typeParamRead {name : Option String} {isOptional : Bool} {t : TypeExpr} (fits : t.Fits)
    (named : isOptional → name.isSome) (reads : t.ReadsBy style type 0 3) :
    ItemReads typeParam (.mk name t isOptional) ((TypeParam.mk name t isOptional).tokens style) := by
  -- Without a name a parameter begins with its type, in which no colon and no question mark follows
  -- a name.
  intro fuel s more enough ends
  obtain ⟨fuel, rfl⟩ : ∃ n, fuel = n + 1 := ⟨fuel - 1, by omega⟩
  rw [TypeParam.tokens, List.length_append] at enough
  have typed := reads fuel _ (by omega) (itemStops ends more)
  rw [typeParam, TypeParam.tokens, List.append_assoc]
  refine takesPeek.step (takesPeekNext.step ?_)
  cases name with
  | some name =>
    cases isOptional with
    | false => exact takesAdvance.step (takesAdvance.step (typed.step (.pure rfl)))
    | true =>
      refine takesAdvance.step (takesAdvance.step ((takesExpected _ _).bind fun _ _ => ?_))
      exact typed.step (.pure rfl)
  | none =>
    cases isOptional with
    | true => cases named rfl
    | false =>
      have far (u : Token) (short : u.reach = 0) (other : u ≠ .symbol s) (name : String)
          (first : (t.tokens style ++ .symbol s :: more).head? = some (.ident name)) :
          (t.tokens style ++ .symbol s :: more).tail.head? ≠ some u := by
        intro second
        have leads := typeNameLeads style t fits
        rcases leads.ahead (typePhrase style t fits).nonempty first second with behind | inside
        · exact other (Option.some.inj behind).symm
        · omega
      have marks : Symbol.colon ∉ itemEnds ∧ Symbol.question ∉ itemEnds := by decide
      rw [paramTokens, List.nil_append]
      split
      · exact absurd ‹_› (far _ rfl (by rintro ⟨⟩; exact marks.1 ends) _ ‹_›)
      · exact absurd ‹_› (far _ rfl (by rintro ⟨⟩; exact marks.2 ends) _ ‹_›)
      · exact typed.step (.pure rfl)

theorem TypeStyle.keyNe (key : PropertyName) : style.key key ≠ .symbol .lBracket ∧
    style.key key ≠ .keyword .kwMut := by
  -- No key is the token of a bracket or of `mut`.
  cases key with
  | name name =>
    rw [TypeStyle.key]
    split <;> simp
  | int n => simp [TypeStyle.key]

theorem propertyRead (key : PropertyName) (mutable : Bool) {t : TypeExpr}
    (reads : t.ReadsBy style type 0 3) : ItemReads typeMember (.property key t mutable)
      ((TypeMember.property key t mutable).tokens style) := by
  intro fuel s more enough ends
  obtain ⟨fuel, rfl⟩ : ∃ n, fuel = n + 1 := ⟨fuel - 1, by omega⟩
  simp only [TypeMember.tokens, List.length_append, List.length_cons] at enough
  have typed := reads fuel _ (by omega) (itemStops ends more)
  obtain ⟨bracket, keyword⟩ := style.keyNe key
  rw [typeMember, TypeMember.tokens, List.append_assoc]
  refine (takesNothing ?_).step (takesPeek.step ?_)
  · cases mutable with
    | true => nofun
    | false => exact fun first => bracket (Option.some.inj first)
  extract_lets marked keyed go
  have decided : decide marked = mutable := by
    cases mutable with
    | true => exact decide_eq_true rfl
    | false => exact decide_eq_false fun first => keyword (Option.some.inj first)
  have keyedRead : Takes (keyed key) (.symbol .colon :: (t.tokens style ++ .symbol s :: more))
      (.symbol s :: more) (· = .property key t mutable) :=
    (takesExpected _ _).bind fun _ _ => typed.step (.pure (by rw [decided]))
  have goes : Takes (go ()) (style.key key :: .symbol .colon ::
      (t.tokens style ++ .symbol s :: more)) (.symbol s :: more) (· = .property key t mutable) := by
    cases key with
    | name name =>
      rw [TypeStyle.key]
      split <;> exact takesAdvance.step keyedRead
    | int n => exact takesAdvance.step keyedRead
  cases mutable with
  | true =>
    rw [if_pos (of_decide_eq_true decided)]
    exact takesAdvance.step goes
  | false =>
    rw [if_neg (of_decide_eq_false decided)]
    exact goes

theorem indexRead {key t : TypeExpr} (keys : key.ReadsBy style type 0 3)
    (reads : t.ReadsBy style type 0 3) :
    ItemReads typeMember (.index key t) ((TypeMember.index key t).tokens style) := by
  intro fuel s more enough ends
  obtain ⟨fuel, rfl⟩ : ∃ n, fuel = n + 1 := ⟨fuel - 1, by omega⟩
  simp only [TypeMember.tokens, List.length_append, List.length_cons] at enough
  rw [typeMember, TypeMember.tokens, List.cons_append, List.append_assoc]
  refine (takesEat _).step ((keys fuel _ (by omega) (.cons (by decide) _)).step ?_)
  refine (takesExpected _ _).bind fun _ _ => (takesExpected _ _).bind fun _ _ => ?_
  exact (reads fuel _ (by omega) (itemStops ends more)).step (.pure rfl)

theorem typeParamsRead : ∀ params : List TypeParam,
    (∀ p ∈ params, ItemReads typeParam p (p.tokens style) ∧ Phrase (p.tokens style)) →
    ∀ fuel after, 16 * (separated .comma (typeParamsTokens style params)).length + 5 ≤ fuel →
      Takes (typeParams fuel)
        (separated .comma (typeParamsTokens style params) ++ .symbol .rParen :: after)
        (.symbol .rParen :: after) (· = params)
  | [], _, fuel + 1, after, _ => by
    rw [typeParams]
    exact (takesIsNext _).step (.pure rfl)
  | [p], reads, fuel + 1, after, enough => by
    obtain ⟨item, phrase⟩ := reads p List.mem_cons_self
    rw [typeParamsTokens, typeParamsTokens, separatedOne] at enough ⊢
    rw [typeParams]
    refine (takesIsNext _).step ?_
    rw [decide_eq_false (phrase.firstNe rfl _), if_neg Bool.false_ne_true]
    refine (item fuel _ _ (by omega) (by decide)).step ?_
    exact (takesNothing (by nofun)).step (.pure rfl)
  | p :: next :: rest, reads, fuel + 1, after, enough => by
    obtain ⟨⟨item, phrase⟩, others⟩ := List.forall_mem_cons.mp reads
    rw [typeParamsTokens, typeParamsTokens, separatedMore, List.length_append,
      List.length_cons] at enough
    rw [typeParams, typeParamsTokens, typeParamsTokens, separatedMore, List.append_assoc]
    refine (takesIsNext _).step ?_
    rw [decide_eq_false (phrase.firstNe rfl _), if_neg Bool.false_ne_true]
    refine (item fuel _ _ (by omega) (by decide)).step ((takesEat _).step ?_)
    exact (typeParamsRead (next :: rest) others fuel after (by rw [typeParamsTokens]; omega)).step
      (.pure rfl)

theorem typeMembersRead : ∀ members : List TypeMember,
    (∀ m ∈ members, ItemReads typeMember m (m.tokens style) ∧ Phrase (m.tokens style)) →
    ∀ fuel after, 16 * (separated style.between (typeMembersTokens style members)).length + 5 ≤ fuel →
      Takes (typeMembers fuel)
        (separated style.between (typeMembersTokens style members) ++ .symbol .rBrace :: after)
        (.symbol .rBrace :: after) (· = members)
  | [], _, fuel + 1, after, _ => by
    rw [typeMembers]
    exact (takesIsNext _).step (.pure rfl)
  | [m], reads, fuel + 1, after, enough => by
    obtain ⟨item, phrase⟩ := reads m List.mem_cons_self
    rw [typeMembersTokens, typeMembersTokens, separatedOne] at enough ⊢
    rw [typeMembers]
    refine (takesIsNext _).step ?_
    rw [decide_eq_false (phrase.firstNe rfl _), if_neg Bool.false_ne_true]
    refine (item fuel _ _ (by omega) (by decide)).step ?_
    exact (takesNothing (by nofun)).step ((takesNothing (by nofun)).step (.pure rfl))
  | m :: next :: rest, reads, fuel + 1, after, enough => by
    obtain ⟨⟨item, phrase⟩, others⟩ := List.forall_mem_cons.mp reads
    rw [typeMembersTokens, typeMembersTokens, separatedMore, List.length_append,
      List.length_cons] at enough
    have further := typeMembersRead (next :: rest) others fuel after
      (by rw [typeMembersTokens]; omega)
    rw [typeMembers, typeMembersTokens, typeMembersTokens, separatedMore, List.append_assoc]
    refine (takesIsNext _).step ?_
    rw [decide_eq_false (phrase.firstNe rfl _), if_neg Bool.false_ne_true]
    rcases style.separates with comma | semicolon
    · rw [comma] at further ⊢
      refine (item fuel _ _ (by omega) (by decide)).step ((takesEat _).step ?_)
      exact further.step (.pure rfl)
    · rw [semicolon] at further ⊢
      refine (item fuel _ _ (by omega) (by decide)).step ((takesNothing (by nofun)).step ?_)
      exact (takesEat _).step (further.step (.pure rfl))

theorem typeArgumentsRead (name : String) (arg : TypeExpr) (args : List TypeExpr)
    (reads : ∀ t ∈ arg :: args, t.ReadsBy style type 0 3) :
    (TypeExpr.named name (arg :: args)).ReadsBy style primaryType 3 0 := by
  refine .intro (by simp [TypeExpr.tokens]) fun fuel after enough stops => ?_
  simp only [TypeExpr.tokens, List.length_cons, List.length_append, List.length_nil] at enough
  rw [primaryType, TypeExpr.tokens, List.cons_append, List.cons_append, List.append_assoc]
  refine takesAdvance.step ((takesEat _).step ?_)
  refine (typeArgsRead arg args reads fuel _ (by rw [typesTokens]; omega)).step ?_
  exact (takesExpected _ _).bind fun _ _ => .pure rfl

theorem functionReads {params : List TypeParam} {ret : TypeExpr}
    (reads : ∀ p ∈ params, ItemReads typeParam p (p.tokens style) ∧ Phrase (p.tokens style))
    (result : ret.ReadsBy style type 0 3) :
    (TypeExpr.function params ret).ReadsBy style primaryType 0 0 := by
  refine .intro (by simp [TypeExpr.tokens]) fun fuel after enough stops => ?_
  simp only [TypeExpr.tokens, List.length_cons, List.length_append] at enough
  rw [primaryType, TypeExpr.tokens, List.cons_append, List.cons_append, List.append_assoc]
  refine takesAdvance.step ((takesExpected _ _).bind fun _ _ => ?_)
  refine (typeParamsRead params reads fuel _ (by omega)).step ((takesExpected _ _).bind fun _ _ => ?_)
  exact (takesEat _).step ((result fuel after (by omega) stops).step (.pure rfl))

theorem interfaceReads {members : List TypeMember}
    (reads : ∀ m ∈ members, ItemReads typeMember m (m.tokens style) ∧ Phrase (m.tokens style)) :
    (TypeExpr.interface members).ReadsBy style primaryType 3 0 := by
  refine .intro (by simp [TypeExpr.tokens]) fun fuel after enough stops => ?_
  simp only [TypeExpr.tokens, List.length_cons, List.length_append, List.length_nil] at enough
  rw [primaryType, TypeExpr.tokens, List.cons_append, List.append_assoc]
  refine takesAdvance.step ((typeMembersRead members reads fuel _ (by omega)).step ?_)
  exact (takesExpected _ _).bind fun _ _ => .pure rfl

theorem unionReads {first next : TypeExpr} {rest : List TypeExpr}
    (reads : ∀ t ∈ first :: next :: rest, t.ReadsBy style intersectionType 1 2) :
    (TypeExpr.union (first :: next :: rest)).ReadsBy style type 0 3 := by
  obtain ⟨leading, others⟩ := List.forall_mem_cons.mp reads
  refine .intro (by omega) fun fuel after enough stops => ?_
  rw [TypeExpr.tokens, typesTokens, separated, List.length_append] at enough
  rw [type, TypeExpr.tokens, typesTokens, separated, List.append_assoc]
  refine (leading fuel _ (by omega) (.cons (by decide) _)).step ?_
  have reach : (Token.symbol .pipe).typeReach = 0 + 1 := rfl
  exact (typesAfterRead reach (.inl ⟨rfl, rfl⟩) (by decide) _ others fuel after (by omega)
    stops).step (.pure rfl)

theorem intersectionsRead {first next : TypeExpr} {rest : List TypeExpr}
    (reads : ∀ t ∈ first :: next :: rest, t.ReadsBy style arrayType 2 1) :
    (TypeExpr.intersection (first :: next :: rest)).ReadsBy style intersectionType 1 2 := by
  obtain ⟨leading, others⟩ := List.forall_mem_cons.mp reads
  refine .intro (by omega) fun fuel after enough stops => ?_
  rw [TypeExpr.tokens, typesTokens, separated, List.length_append] at enough
  rw [intersectionType, TypeExpr.tokens, typesTokens, separated, List.append_assoc]
  refine (leading fuel _ (by omega) (.cons (by decide) _)).step ?_
  have reach : (Token.symbol .amp).typeReach = 1 + 1 := rfl
  exact (typesAfterRead reach (.inr ⟨by decide, rfl⟩) (by decide) _ others fuel after (by omega)
    stops).step (.pure rfl)

theorem TypeExpr.ReadsBy.suffixed {t : TypeExpr} (reads : t.ReadsBy style primaryType 3 0)
    (fits : t.Fits) (tight : 2 ≤ t.level) : TypeReadBack style t :=
  (TypeReadsItself.suffixed tight reads.leadsInto).readBack fits

-- The recursion is on the type. What is known of a part is how it reads at every place that it
-- fits, which is what its place in the whole asks for.
mutual

theorem typeReadBack : (t : TypeExpr) → t.Fits → TypeReadBack style t
  | .named name [], fits => (nameReads name).suffixed fits (by simp [TypeExpr.level])
  | .named name (arg :: args), fits =>
    (typeArgumentsRead name arg args fun t held =>
      (typesReadBack (arg :: args) fits t held).2.whole).suffixed fits (by simp [TypeExpr.level])
  | .literal _, fits => (literalTypeReads fits).suffixed fits (by simp [TypeExpr.level])
  | .array element, fits => by
    have leads := arrayLeads ((typeReadBack element fits.2).suffixed fits.1)
    exact (TypeReadsItself.suffixed (by simp [TypeExpr.level]) leads).readBack fits
  | .function params ret, fits => by
    have reads := functionReads (typeParamsReadBack params fits.1) (typeReadBack ret fits.2).whole
    have nonempty := (typePhrase style _ fits).nonempty
    refine (TypeReadsItself.whole rfl (wholeReads (intersectionReads ?_ (by decide)))).readBack fits
    exact arrayReads nonempty reads.leadsInto (by decide)
  | .interface members, fits =>
    (interfaceReads (typeMembersReadBack members fits)).suffixed fits (by simp [TypeExpr.level])
  | .union (first :: next :: rest), fits => by
    have each := typesReadBack (first :: next :: rest) fits.2
    refine (TypeReadsItself.whole rfl (unionReads fun t held => ?_)).readBack fits
    exact (each t held).2.intersection (each t held).1
  | .intersection (first :: next :: rest), fits => by
    have each := typesReadBack (first :: next :: rest) fits.2
    refine (TypeReadsItself.intersection rfl (intersectionsRead fun t held => ?_)).readBack fits
    exact (each t held).2.array (each t held).1
  | .union [], fits | .union [_], fits | .intersection [], fits | .intersection [_], fits =>
    absurd fits.1 (by simp)
  | .parenthesized inner, fits =>
    (parenthesizedReads (typeReadBack inner fits).whole).suffixed fits (by simp [TypeExpr.level])

theorem typesReadBack {place : Nat} : (ts : List TypeExpr) → typesFit place ts →
    ∀ t ∈ ts, place ≤ t.level ∧ TypeReadBack style t
  | [], _ => nofun
  | t :: rest, fits =>
    List.forall_mem_cons.mpr ⟨⟨fits.1.1, typeReadBack t fits.1.2⟩, typesReadBack rest fits.2⟩

theorem typeParamReadBack : (p : TypeParam) → p.Fits →
    ItemReads typeParam p (p.tokens style) ∧ Phrase (p.tokens style)
  | .mk _ t _, fits =>
    ⟨typeParamRead fits.2 fits.1 (typeReadBack t fits.2).whole, typeParamPhrase style _ fits⟩

theorem typeParamsReadBack : (params : List TypeParam) → typeParamsFit params →
    ∀ p ∈ params, ItemReads typeParam p (p.tokens style) ∧ Phrase (p.tokens style)
  | [], _ => nofun
  | p :: rest, fits =>
    List.forall_mem_cons.mpr ⟨typeParamReadBack p fits.1, typeParamsReadBack rest fits.2⟩

theorem typeMemberReadBack : (m : TypeMember) → m.Fits →
    ItemReads typeMember m (m.tokens style) ∧ Phrase (m.tokens style)
  | .property key t mutable, fits =>
    ⟨propertyRead key mutable (typeReadBack t fits).whole, typeMemberPhrase style _ fits⟩
  | .index key t, fits =>
    ⟨indexRead (typeReadBack key fits.1).whole (typeReadBack t fits.2).whole,
      typeMemberPhrase style _ fits⟩

theorem typeMembersReadBack : (members : List TypeMember) → typeMembersFit members →
    ∀ m ∈ members, ItemReads typeMember m (m.tokens style) ∧ Phrase (m.tokens style)
  | [], _ => nofun
  | m :: rest, fits =>
    List.forall_mem_cons.mpr ⟨typeMemberReadBack m fits.1, typeMembersReadBack rest fits.2⟩

end

end

theorem lexemeNoLayout {t : Token} {text : List Char} (lexeme : Lexer.Lexeme t text) :
    isLayout t = false := by
  cases lexeme <;> rfl

theorem startWritten {gap : Token → Option Token → List Char} {ts : List Token} {text : List Char}
    (written : Lexer.Written gap ts text) {tokens : List Spanned}
    (same : tokens.map (·.token) = ts ++ [.eof]) : start tokens = ⟨tokens, none, 0⟩ := by
  have kept : tokens.filter (!isLayout ·.token) = tokens := by
    refine List.filter_eq_self.mpr fun token held => ?_
    have listed : token.token ∈ ts ++ [.eof] := same ▸ List.mem_map_of_mem held
    rcases List.mem_append.mp listed with inside | last
    · obtain ⟨text, lexeme⟩ := written.lexemes _ inside
      rw [lexemeNoLayout lexeme]
      rfl
    · rw [List.mem_singleton.mp last]
      rfl
  rw [start, kept]

/-- A type is read back from its text: with no blanks but behind `mut` and between two closing angle
brackets the text is accepted, and parsing its tokens as a type gives that type and leaves the end
mark. -/
theorem typeTextReadBack (style : TypeStyle) (t : TypeExpr) (fits : t.Fits) {text : List Char}
    (written : Lexer.Written typeGap (t.tokens style) text) :
    ∃ tokens behind, lex (String.ofList text) = .ok tokens ∧
      Parser.bounded Parser.type (Parser.start tokens) = .ok (t, behind) ∧
      behind.rest.map (·.token) = [.eof] := by
  obtain ⟨tokens, lexed, same⟩ := written.lexed typeGapBlank (typePhrase style t fits).spaced
  have long : tokens.length = (t.tokens style).length + 1 := by
    rw [← List.length_map (·.token), same, List.length_append, List.length_singleton]
  have enough : 16 * (t.tokens style).length + 3 ≤ bound tokens := by
    rw [bound, descent]
    omega
  obtain ⟨_, behind, parsed, -, left, rfl⟩ := (typeReadBack t fits).whole _ [.eof] enough
    (.cons (by decide) _) ⟨tokens, none, 0⟩ same
  refine ⟨tokens, behind, lexed, ?_, left⟩
  rw [startWritten written same]
  exact parsed

-- Two closing brackets need a blank between them: without one they are read as a shift.
example : ∃ tokens behind, lex "A<B<int> >" = .ok tokens ∧
    Parser.bounded Parser.type (Parser.start tokens) =
      .ok (.named "A" [.named "B" [.named "int" []]], behind) :=
  ⟨[⟨.ident "A", 1, 1⟩, ⟨.symbol .lt, 1, 2⟩, ⟨.ident "B", 1, 3⟩, ⟨.symbol .lt, 1, 4⟩,
    ⟨.ident "int", 1, 5⟩, ⟨.symbol .gt, 1, 8⟩, ⟨.symbol .gt, 1, 10⟩, ⟨.eof, 1, 11⟩], _,
    by with_unfolding_all rfl, rfl⟩

example : ∃ tokens, lex "A<B<int>>" = .ok tokens ∧
    Parser.bounded Parser.type (Parser.start tokens) =
      .error ⟨.missingSymbol .gt .closeTypeArgs (some (.symbol .shr)), 1, 8⟩ :=
  ⟨[⟨.ident "A", 1, 1⟩, ⟨.symbol .lt, 1, 2⟩, ⟨.ident "B", 1, 3⟩, ⟨.symbol .lt, 1, 4⟩,
    ⟨.ident "int", 1, 5⟩, ⟨.symbol .shr, 1, 8⟩, ⟨.eof, 1, 10⟩], by with_unfolding_all rfl, rfl⟩

end Quill
