import Quill.Proofs.Parsing.Spelled
import Quill.Proofs.Parsing.Takes

/-! Expressions read back from their tokens. Each rule of the parser takes the expressions that may
have its place; from the tightest place of an expression down, the looser rules find nothing of
their own behind it. The loops of suffixes and of operators are followed round by round. -/
namespace Quill
open Parser

/-- The rule reads the expression in front of what stops its place. The tokens pay for the bound on
the recursion, up to a cost. -/
def Expr.ReadsBy (e : Expr) (rule : Nat → Parser Expr) (place cost : Nat) : Prop :=
  ∀ fuel after, 16 * e.tokens.length + cost ≤ fuel → Stops place after →
    Takes (rule fuel) (e.tokens ++ after) after e.Same

def Expr.LeadsInto (e : Expr) (rule : Nat → Parser Expr) (loop : Expr → Nat → Parser Expr)
    (place cost : Nat) : Prop :=
  ∀ fuel ts after gives, 16 * e.tokens.length + cost ≤ fuel → Stops place ts →
    (∀ e' fuel', e.Same e' → fuel ≤ fuel' + e.tokens.length →
      Takes (loop e' fuel') ts after gives) →
    Takes (rule fuel >>= fun e' => loop e' fuel) (e.tokens ++ ts) after gives

section
variable {e l : Expr} {rule : Nat → Parser Expr} {loop : Expr → Nat → Parser Expr}
  {place cost k fuel : Nat} {after : List Token} {gives : Expr → Prop}

theorem Expr.ReadsBy.intro (paid : 0 < 16 * e.tokens.length + cost)
    (reads : ∀ fuel after, 16 * e.tokens.length + cost ≤ fuel + 1 → Stops place after →
      Takes (rule (fuel + 1)) (e.tokens ++ after) after e.Same) : e.ReadsBy rule place cost
  | 0, _, enough, _ => absurd enough (by omega)
  | fuel + 1, after, enough, stops => reads fuel after enough stops

theorem Expr.ReadsBy.leadsInto (reads : e.ReadsBy rule place cost) :
    e.LeadsInto rule loop place cost :=
  fun fuel _ _ _ enough stops goesOn =>
    (reads fuel _ enough stops).bind fun e' same => goesOn e' fuel same (by omega)

theorem Expr.LeadsInto.round (leads : l.LeadsInto rule loop place cost) (t : Token)
    (part : List Token) (spelled : e.tokens = l.tokens ++ t :: part) (short : t.reach ≤ place)
    (round : ∀ l' fuel ts after gives, l.Same l' → 16 * part.length + 15 + cost ≤ fuel →
      Stops place ts → (∀ e', e.Same e' → Takes (loop e' fuel) ts after gives) →
      Takes (loop l' (fuel + 1)) (t :: (part ++ ts)) after gives) :
    e.LeadsInto rule loop place cost := by
  intro fuel ts after gives enough stops goesOn
  have longer : e.tokens.length = l.tokens.length + part.length + 1 := by
    rw [spelled, List.length_append, List.length_cons, Nat.add_assoc]
  rw [spelled, List.append_assoc]
  refine leads fuel _ after gives (by omega) (.cons short _) fun l' fuel' same left => ?_
  obtain ⟨fuel', rfl⟩ : ∃ n, fuel' = n + 1 := ⟨fuel' - 1, by omega⟩
  exact round l' fuel' ts after gives same (by omega) stops fun e' same' =>
    goesOn e' fuel' same' (by omega)

theorem suffixesEnd (stops : Stops 13 after) (said : gives e) :
    Takes (suffixes e (fuel + 1)) after after gives := by
  rw [Parser.suffixes]
  refine takesHere.bind fun span _ => takesPeek.step ?_
  split
  · exact absurd (stops _ ‹_›) (by decide)
  · exact absurd (stops _ ‹_›) (by decide)
  · exact absurd (stops _ ‹_›) (by decide)
  · next s _ _ _ ahead =>
    have step : StepOp.ofSymbol? s = none := by
      cases s <;> first | rfl | exact absurd (stops _ ahead) (by decide)
    rw [step]
    exact .pure said
  · exact .pure said

theorem binaryRestEnd (stops : Stops (k + 1) after) (said : gives e) :
    Takes (binaryRest k e (fuel + 1)) after after gives := by
  rw [Parser.binaryRest]
  refine takesHere.bind fun span _ => takesPeek.step ?_
  split
  · next s ahead =>
    split
    · next op found =>
      have short := stops _ ahead
      rw [BinaryOp.symbolOfSymbol? found, op.symbolReach] at short
      rw [if_neg (by omega)]
      exact .pure said
    · exact .pure said
  · exact .pure said

theorem unaryReads (fits : e.Fits) (tight : 13 ≤ e.level)
    (leads : e.LeadsInto primary suffixes 14 0) : e.ReadsBy unary 12 1 := by
  -- The first token of an operand of suffixes is no prefix.
  refine .intro (by omega) fun fuel after enough stops => ?_
  obtain ⟨t, more, spelled, -, bare⟩ := firstToken e fits
  have reads : Takes (primary fuel >>= fun e' => suffixes e' fuel) (e.tokens ++ after) after
      e.Same := by
    refine leads fuel after after _ (by omega) (stops.mono (by decide)) fun e' fuel' same left => ?_
    have short : 0 < e.tokens.length := by rw [spelled]; exact Nat.zero_lt_succ _
    obtain ⟨fuel', rfl⟩ : ∃ n, fuel' = n + 1 := ⟨fuel' - 1, by omega⟩
    exact suffixesEnd (stops.mono (by decide)) same
  rw [Parser.unary]
  refine takesHere.bind fun span _ => takesPeek.step ?_
  split
  · next s ahead =>
    rw [spelled] at ahead
    rw [bare tight s (Option.some.inj ahead)]
    exact reads
  · exact reads

theorem powerReads (reads : e.ReadsBy unary 12 1) : e.ReadsBy power 11 2 := by
  refine .intro (by omega) fun fuel after enough stops => ?_
  rw [Parser.power]
  refine (reads fuel after (by omega) (stops.mono (by decide))).bind fun e' same => ?_
  refine takesHere.bind fun span _ => (takesNothing fun ahead => ?_).step (.pure same)
  exact absurd (stops _ ahead) (by decide)

theorem topReads (reads : e.ReadsBy power 11 2) : e.ReadsBy (binary 10) 11 3 := by
  refine .intro (by omega) fun fuel after enough stops => ?_
  rw [Parser.binary, if_pos rfl]
  exact reads fuel after (by omega) stops

theorem levelReads (low : k ≤ 9)
    (leads : e.LeadsInto (binary (k + 1)) (binaryRest k) (k + 2) (12 - k)) :
    e.ReadsBy (binary k) (k + 1) (13 - k) := by
  refine .intro (by omega) fun fuel after enough stops => ?_
  rw [Parser.binary, if_neg (by omega)]
  refine leads fuel after after _ (by omega) (stops.mono (by omega)) fun e' fuel' same left => ?_
  obtain ⟨fuel', rfl⟩ : ∃ n, fuel' = n + 1 := ⟨fuel' - 1, by omega⟩
  exact binaryRestEnd stops same

theorem levelLeads
    (own : e.level = k + 1 → e.LeadsInto (binary (k + 1)) (binaryRest k) (k + 2) (12 - k))
    (above : k + 2 ≤ e.level → e.ReadsBy (binary (k + 1)) (k + 2) (13 - (k + 1)))
    (tight : k + 1 ≤ e.level) : e.LeadsInto (binary (k + 1)) (binaryRest k) (k + 2) (12 - k) := by
  by_cases here : e.level = k + 1
  · exact own here
  · have reads := above (by omega)
    rw [show 13 - (k + 1) = 12 - k by omega] at reads
    exact reads.leadsInto

theorem lowerReads (top : 11 ≤ e.level → e.ReadsBy power 11 2)
    (own : ∀ k ≤ 9, e.level = k + 1 →
      e.LeadsInto (binary (k + 1)) (binaryRest k) (k + 2) (12 - k))
    (k : Nat) (low : k ≤ 10) (tight : k + 1 ≤ e.level) : e.ReadsBy (binary k) (k + 1) (13 - k) := by
  -- Below the level of an expression no operator is found.
  by_cases highest : k = 10
  · subst highest
    exact topReads (top tight)
  · have above := lowerReads top own (k + 1) (by omega)
    exact levelReads (by omega) (levelLeads (own k (by omega)) above tight)
termination_by 10 - k

theorem expressionReads (fits : e.Fits) (operand : 1 ≤ e.level)
    (reads : e.ReadsBy (binary 0) 1 13) : e.ReadsBy expression 0 14 := by
  -- No assignment operator follows a name at the start.
  refine .intro (by omega) fun fuel after enough stops => ?_
  have far (name : String) (t : Token) (first : (e.tokens ++ after).head? = some (.ident name))
      (second : (e.tokens ++ after).tail.head? = some t) : t.reach ≠ 1 := by
    rcases (nameLeads e fits operand).ahead (e.tokens_ne fits) first second with behind | inside
    · have := stops t behind
      omega
    · omega
  rw [Parser.expression]
  refine takesPeek.step (takesPeekNext.step ?_)
  split
  · exact absurd rfl (far _ _ ‹_› ‹_›)
  · exact absurd rfl (far _ _ ‹_› ‹_›)
  · exact reads fuel after (by omega) (stops.mono (by decide))

end

structure ReadBack (e : Expr) : Prop where
  suffixed : 13 ≤ e.level → e.LeadsInto Parser.primary suffixes 14 0
  unary : 12 ≤ e.level → e.ReadsBy Parser.unary 12 1
  power : 11 ≤ e.level → e.ReadsBy Parser.power 11 2
  chained (k : Nat) (low : k ≤ 9) (tight : k + 1 ≤ e.level) :
    e.LeadsInto (Parser.binary (k + 1)) (binaryRest k) (k + 2) (12 - k)
  binary (k : Nat) (low : k ≤ 10) (tight : k + 1 ≤ e.level) :
    e.ReadsBy (Parser.binary k) (k + 1) (13 - k)
  expression : e.ReadsBy Parser.expression 0 14

inductive ReadsItself (e : Expr) : Prop where
  | suffixed (own : e.level = 13) (leads : e.LeadsInto Parser.primary suffixes 14 0)
  | unary (own : e.level = 12) (reads : e.ReadsBy Parser.unary 12 1)
  | power (own : e.level = 11) (reads : e.ReadsBy Parser.power 11 2)
  | chained (k : Nat) (low : k ≤ 9) (own : e.level = k + 1)
      (leads : e.LeadsInto (Parser.binary (k + 1)) (binaryRest k) (k + 2) (12 - k))
  | assigned (own : e.level = 0) (reads : e.ReadsBy Parser.expression 0 14)

theorem ReadsItself.readBack {e : Expr} (itself : ReadsItself e) (fits : e.Fits) : ReadBack e := by
  have suffixed (tight : 13 ≤ e.level) : e.LeadsInto Parser.primary suffixes 14 0 := by
    cases itself <;> first | assumption | omega
  have unary (tight : 12 ≤ e.level) : e.ReadsBy Parser.unary 12 1 := by
    by_cases tighter : 13 ≤ e.level
    · exact unaryReads fits tighter (suffixed tighter)
    · cases itself <;> first | assumption | omega
  have power (tight : 11 ≤ e.level) : e.ReadsBy Parser.power 11 2 := by
    by_cases tighter : 12 ≤ e.level
    · exact powerReads (unary tighter)
    · cases itself <;> first | assumption | omega
  have own (k : Nat) (low : k ≤ 9) (here : e.level = k + 1) :
      e.LeadsInto (Parser.binary (k + 1)) (binaryRest k) (k + 2) (12 - k) := by
    cases itself with
    | chained k' _ own leads =>
      obtain rfl : k' = k := by omega
      exact leads
    | _ => omega
  have binary := lowerReads power own
  refine ⟨suffixed, unary, power, fun k low => ?_, binary, ?_⟩
  · exact levelLeads (own k low) (binary (k + 1) (by omega))
  · by_cases operand : 1 ≤ e.level
    · exact expressionReads fits operand (binary 0 (by decide) operand)
    · cases itself <;> first | assumption | omega

section
variable {fuel : Nat} (m : Mark)

theorem literalReads (value : Literal) : (Expr.literal m value).ReadsBy Parser.primary 14 0 := by
  refine .intro (by simp [Expr.tokens]) fun fuel after _ _ => ?_
  rw [Parser.primary]
  refine takesHere.bind fun span _ => takesPeek.step ?_
  cases value <;>
    exact takesAdvance.step ((takesMark span).bind fun m' _ => .pure (.literal m m' _))

theorem identReads (name : String) : (Expr.ident m name).ReadsBy Parser.primary 14 0 := by
  refine .intro (by simp [Expr.tokens]) fun fuel after _ _ => ?_
  rw [Parser.primary]
  refine takesHere.bind fun span _ => takesPeek.step ?_
  exact takesAdvance.step ((takesMark span).bind fun m' _ => .pure (.ident m m' name))

theorem groupingReads {inner : Expr} (reads : inner.ReadsBy Parser.expression 0 14) :
    (Expr.grouping m inner).ReadsBy Parser.primary 14 0 := by
  have longer : (Expr.grouping m inner).tokens.length = inner.tokens.length + 2 := by
    simp [Expr.tokens]
  refine .intro (by omega) fun fuel after enough _ => ?_
  rw [Parser.primary, Expr.tokens, List.cons_append, List.append_assoc]
  refine takesHere.bind fun span _ => takesPeek.step (takesAdvance.step ?_)
  refine (reads fuel _ (by omega) (.cons (by decide) _)).bind fun inner' same => ?_
  exact (takesExpected _ _).bind fun _ _ => (takesMark span).bind fun m' _ =>
    .pure (.grouping m m' same)

theorem prefixReads (op : UnaryOp) {operand : Expr} (reads : operand.ReadsBy Parser.unary 12 1) :
    (Expr.unary m op operand).ReadsBy Parser.unary 12 1 := by
  have longer : (Expr.unary m op operand).tokens.length = operand.tokens.length + 1 := rfl
  refine .intro (by omega) fun fuel after enough stops => ?_
  rw [Parser.unary, Expr.tokens, List.cons_append]
  refine takesHere.bind fun span _ => takesPeek.step ?_
  simp only [List.head?_cons, op.ofSymbol?_symbol]
  refine takesAdvance.step ((reads fuel _ (by omega) stops).bind fun operand' same => ?_)
  exact (takesMark span).bind fun m' _ => .pure (.unary m m' op same)

theorem powReads {left right : Expr} (lefts : left.ReadsBy Parser.unary 12 1)
    (rights : right.ReadsBy Parser.power 11 2) :
    (Expr.binary m .pow left right).ReadsBy Parser.power 11 2 := by
  have longer : (Expr.binary m .pow left right).tokens.length =
      left.tokens.length + right.tokens.length + 1 := by
    simp [Expr.tokens, Nat.add_assoc]
  refine .intro (by omega) fun fuel after enough stops => ?_
  rw [Parser.power, Expr.tokens, List.append_assoc]
  refine (lefts fuel _ (by omega) (.cons (by decide) _)).bind fun left' same => ?_
  refine takesHere.bind fun span _ => (takesEat _).step ?_
  refine (rights fuel _ (by omega) stops).bind fun right' same' => ?_
  exact (takesMark span).bind fun m' _ => .pure (.binary m m' .pow same same')

theorem operatorLeads (op : BinaryOp) {left right : Expr}
    (lefts : left.LeadsInto (Parser.binary (op.level + 1)) (binaryRest op.level) (op.level + 2)
      (12 - op.level))
    (rights : right.ReadsBy (Parser.binary (op.level + 1)) (op.level + 2) (12 - op.level)) :
    (Expr.binary m op left right).LeadsInto (Parser.binary (op.level + 1)) (binaryRest op.level)
      (op.level + 2) (12 - op.level) := by
  refine lefts.round (.symbol op.symbol) right.tokens rfl (Nat.le_of_eq op.symbolReach) ?_
  intro left' fuel ts after gives same enough stops goesOn
  rw [binaryRest]
  refine takesHere.bind fun span _ => takesPeek.step ?_
  simp only [List.head?_cons, op.ofSymbol?_symbol, if_true]
  refine takesAdvance.step ((rights fuel _ (by omega) stops).bind fun right' same' => ?_)
  exact (takesMark span).bind fun m' _ => goesOn _ (.binary m m' op same same')

theorem binaryReadsItself (op : BinaryOp) {left right : Expr}
    (fits : (Expr.binary m op left right).Fits) (lefts : ReadBack left) (rights : ReadBack right) :
    ReadsItself (.binary m op left right) := by
  -- A power leads by its base, every other operator by the chain to its left.
  obtain ⟨⟨leftFits, -⟩, rightFits, -⟩ := fits
  by_cases powers : op = .pow
  · subst powers
    exact .power rfl (powReads m (lefts.unary leftFits) (rights.power rightFits))
  · have low : op.level ≤ 9 := by cases op <;> first | decide | exact absurd rfl powers
    rw [BinaryOp.places, if_neg powers] at leftFits rightFits
    have reads := rights.binary (op.level + 1) (by omega) rightFits
    rw [show 13 - (op.level + 1) = 12 - op.level by omega] at reads
    exact .chained op.level low rfl (operatorLeads m op (lefts.chained _ low leftFits) reads)

theorem assignReads (name : String) (op : Option BinaryOp) {value : Expr}
    (fits : (Expr.assign m name op value).Fits) (reads : value.ReadsBy Parser.expression 0 14) :
    (Expr.assign m name op value).ReadsBy Parser.expression 0 14 := by
  have longer : (Expr.assign m name op value).tokens.length = value.tokens.length + 2 := by
    cases op <;> rfl
  refine .intro (by omega) fun fuel after enough stops => ?_
  obtain ⟨fuel, rfl⟩ : ∃ n, fuel = n + 1 := ⟨fuel - 1, by omega⟩
  rw [Parser.expression]
  have ends (span : Span) : Takes (do
      let value ← Parser.expression fuel
      return .assign (← mark span) name op value) (value.tokens ++ after) after
      (Expr.assign m name op value).Same :=
    (reads fuel _ (by omega) stops).bind fun value' same =>
      (takesMark span).bind fun m' _ => .pure (.assign m m' name op same)
  have assigned : Takes (assignment (fuel + 1)) ((Expr.assign m name op value).tokens ++ after)
      after (Expr.assign m name op value).Same := by
    rw [assignment]
    refine takesHere.bind fun span _ => ?_
    cases op with
    | none => exact (takesName name _).step (takesAdvance.step (ends span))
    | some op =>
      refine (takesName name _).step (takesAdvance.step ?_)
      simp only [BinaryOp.ofCompound?, if_pos fits.1, op.ofSymbol?_symbol]
      exact ends span
  cases op <;> exact takesPeek.step (takesPeekNext.step assigned)

theorem callLeads {callee : Expr} {args : List Arg}
    (callees : callee.LeadsInto Parser.primary suffixes 14 0)
    (given : ∀ fuel after, 16 * (argTokens args).length + 15 ≤ fuel →
      Takes (arguments fuel) (argTokens args ++ .symbol .rParen :: after)
        (.symbol .rParen :: after) (ArgsSame args)) :
    (Expr.call m callee args).LeadsInto Parser.primary suffixes 14 0 := by
  refine callees.round (.symbol .lParen) (argTokens args ++ [.symbol .rParen]) rfl (by decide) ?_
  intro callee' fuel ts after gives same enough _ goesOn
  rw [List.length_append, List.length_singleton] at enough
  rw [suffixes, List.append_assoc]
  refine takesHere.bind fun span _ => takesPeek.step (takesAdvance.step ?_)
  refine (given fuel _ (by omega)).bind fun args' same' => (takesExpected _ _).bind fun _ _ => ?_
  exact (takesMark span).bind fun m' _ => goesOn _ (.call m m' same same')

theorem memberLeads (name : PropertyName) {object : Expr}
    (objects : object.LeadsInto Parser.primary suffixes 14 0) :
    (Expr.member m object (.known name)).LeadsInto Parser.primary suffixes 14 0 := by
  refine objects.round (.symbol .dot) [name.token] rfl (by decide) ?_
  intro object' fuel ts after gives same _ _ goesOn
  rw [suffixes]
  refine takesHere.bind fun span _ => takesPeek.step (takesAdvance.step ?_)
  cases name <;> exact takesAdvance.step ((takesMark span).bind fun m' _ =>
    goesOn _ (.member m m' _ same))

theorem indexLeads {object key : Expr} (objects : object.LeadsInto Parser.primary suffixes 14 0)
    (keys : key.ReadsBy Parser.expression 0 14) :
    (Expr.member m object (.computed key)).LeadsInto Parser.primary suffixes 14 0 := by
  refine objects.round (.symbol .lBracket) (key.tokens ++ [.symbol .rBracket]) rfl (by decide) ?_
  intro object' fuel ts after gives same enough _ goesOn
  rw [List.length_append, List.length_singleton] at enough
  rw [suffixes, List.append_assoc]
  refine takesHere.bind fun span _ => takesPeek.step (takesAdvance.step ?_)
  refine (keys fuel _ (by omega) (.cons (by decide) _)).bind fun key' same' => ?_
  exact (takesExpected _ _).bind fun _ _ => (takesMark span).bind fun m' _ =>
    goesOn _ (.index m m' same same')

theorem stepLeads (op : StepOp) (name : String) (v : Mark) :
    (Expr.step m op name v).LeadsInto Parser.primary suffixes 14 0 := by
  have target : (Expr.ident v name).LeadsInto Parser.primary suffixes 14 0 :=
    (identReads v name).leadsInto
  refine target.round (.symbol op.symbol) [] rfl (by cases op <;> decide) ?_
  rintro _ fuel ts after gives (_ | ⟨_, v', _⟩) _ _ goesOn
  rw [suffixes]
  refine takesHere.bind fun span _ => takesPeek.step ?_
  cases op <;> exact takesAdvance.step ((takesMark span).bind fun m' _ =>
    goesOn _ (.step m m' _ name v v'))

end

def ArgsReadBack (args : List Arg) : Prop :=
  ∀ fuel after, 16 * (argTokens args).length + 15 ≤ fuel →
    Takes (arguments fuel) (argTokens args ++ .symbol .rParen :: after) (.symbol .rParen :: after)
      (ArgsSame args)

theorem noArgsRead : ArgsReadBack []
  | fuel + 1, after, _ => by
    rw [arguments]
    exact (takesIsNext _).step (.pure .nil)

theorem argumentRead {name : Option String} {value : Expr} (fits : value.Fits)
    (reads : value.ReadsBy Parser.expression 0 14) {fuel : Nat} {s : Symbol} (more : List Token)
    {after : List Token} {gives : List Arg → Prop}
    (enough : 16 * value.tokens.length + 15 ≤ fuel + 1) (stops : s = .comma ∨ s = .rParen)
    (goesOn : ∀ value', value.Same value' → Takes (do
      if ← eat .comma then return .mk name value' :: (← arguments fuel)
      else return [.mk name value']) (.symbol s :: more) after gives) :
    Takes (arguments (fuel + 1)) (nameTokens name ++ (value.tokens ++ .symbol s :: more)) after
      gives := by
  have short : Stops 0 (.symbol s :: more) := by
    rcases stops with rfl | rfl <;> exact .cons (by decide) _
  obtain ⟨t, rest, spelled, opens, -⟩ := firstToken value fits
  have valued := (reads fuel _ (by omega) short).bind goesOn
  rw [arguments]
  refine (takesIsNext _).step ?_
  cases name with
  | some name =>
    exact takesPeek.step (takesPeekNext.step (takesAdvance.step (takesAdvance.step valued)))
  | none =>
    rw [nameTokens, List.nil_append, spelled, List.cons_append]
    rw [if_neg (by simpa using opens)]
    refine takesPeek.step (takesPeekNext.step ?_)
    rw [← List.cons_append, ← spelled]
    split
    · next name first second =>
      rcases (nameGoesOn value fits).ahead (value.tokens_ne fits) first second with behind | inside
      · rcases stops with rfl | rfl <;> cases behind
      · exact absurd inside (by decide)
    · exact valued

theorem lastArgumentRead (name : Option String) {value : Expr} (fits : value.Fits)
    (reads : value.ReadsBy Parser.expression 0 14) : ArgsReadBack [.mk name value] := by
  intro fuel after enough
  rw [argTokens, List.length_append] at enough
  obtain ⟨fuel, rfl⟩ : ∃ n, fuel = n + 1 := ⟨fuel - 1, by omega⟩
  rw [argTokens, List.append_assoc]
  refine argumentRead fits reads after (by omega) (.inr rfl) fun value' same => ?_
  exact (takesNothing (by nofun)).step (.pure (.cons name same .nil))

theorem furtherArgumentRead (name : Option String) {value : Expr} (fits : value.Fits)
    (reads : value.ReadsBy Parser.expression 0 14) {next : Arg} {rest : List Arg}
    (others : ArgsReadBack (next :: rest)) : ArgsReadBack (.mk name value :: next :: rest) := by
  intro fuel after enough
  simp only [argTokens, List.length_append, List.length_cons] at enough
  obtain ⟨fuel, rfl⟩ : ∃ n, fuel = n + 1 := ⟨fuel - 1, by omega⟩
  rw [argTokens, List.append_assoc, List.append_assoc]
  refine argumentRead fits reads _ (by omega) (.inl rfl) fun value' same => ?_
  refine (takesEat _).step ((others fuel after (by omega)).bind fun rest' same' => ?_)
  exact .pure (.cons name same same')

mutual

theorem exprReadBack : (e : Expr) → e.Fits → ReadBack e
  | .literal m value, fits =>
    (ReadsItself.suffixed rfl (literalReads m value).leadsInto).readBack fits
  | .ident m name, fits => (ReadsItself.suffixed rfl (identReads m name).leadsInto).readBack fits
  | .step m op name v, fits => (ReadsItself.suffixed rfl (stepLeads m op name v)).readBack fits
  | .unary m op operand, fits =>
    (ReadsItself.unary rfl
      (prefixReads m op ((exprReadBack operand fits.2).unary fits.1))).readBack fits
  | .assign m name op value, fits => by
    have inner : value.Fits := by cases op <;> first | exact fits | exact fits.2
    exact (ReadsItself.assigned rfl (assignReads m name op fits
      (exprReadBack value inner).expression)).readBack fits
  | .grouping m inner, fits =>
    (ReadsItself.suffixed rfl
      (groupingReads m (exprReadBack inner fits).expression).leadsInto).readBack fits
  | .call m callee args, fits =>
    (ReadsItself.suffixed rfl (callLeads m ((exprReadBack callee fits.1.2).suffixed fits.1.1)
      (argsReadBack args fits.2))).readBack fits
  | .member m object (.known name), fits =>
    (ReadsItself.suffixed rfl
      (memberLeads m name ((exprReadBack object fits.2).suffixed fits.1))).readBack fits
  | .member m object (.computed key), fits =>
    (ReadsItself.suffixed rfl (indexLeads m ((exprReadBack object fits.1.2).suffixed fits.1.1)
      (exprReadBack key fits.2).expression)).readBack fits
  | .binary m op left right, fits =>
    (binaryReadsItself m op fits (exprReadBack left fits.1.2)
      (exprReadBack right fits.2.2)).readBack fits

theorem argsReadBack : (args : List Arg) → argsFit args → ArgsReadBack args
  | [], _ => noArgsRead
  | [.mk name value], fits => lastArgumentRead name fits.1 (exprReadBack value fits.1).expression
  | .mk name value :: next :: rest, fits =>
    furtherArgumentRead name fits.1 (exprReadBack value fits.1).expression
      (argsReadBack (next :: rest) fits.2)

end

/-- An expression that fits is read back from its tokens, and nothing more is read: neither looser
operators nor what the two tokens ahead may look like change the tree. -/
theorem expressionReadBack (e : Expr) (fits : e.Fits) (tokens rest : List Spanned)
    (spelled : tokens.map (·.token) = e.tokens)
    (stops : ∀ t, rest.head? = some t → t.token.reach = 0) (last : Option Span) (next : Nat) :
    ∃ e' last' next', Parser.bounded Parser.expression ⟨tokens ++ rest, last, next⟩ =
      .ok (e', ⟨rest, last', next'⟩) ∧ e.Same e' := by
  have behind : Stops 0 (rest.map (·.token)) := by
    intro t ahead
    rw [List.head?_map, Option.map_eq_some_iff] at ahead
    obtain ⟨t, ahead, rfl⟩ := ahead
    exact Nat.le_of_eq (stops t ahead)
  have long : tokens.length = e.tokens.length := by rw [← spelled, List.length_map]
  have enough : 16 * e.tokens.length + 14 ≤ bound (tokens ++ rest) := by
    rw [bound, descent, List.length_append]
    omega
  obtain ⟨e', ⟨left, last', next'⟩, parsed, suffix, tokensLeft, same⟩ :=
    (exprReadBack e fits).expression _ _ enough behind ⟨tokens ++ rest, last, next⟩
      (by rw [List.map_append, spelled])
  have short : left.length = rest.length := by
    rw [← List.length_map (·.token), tokensLeft, List.length_map]
  obtain rfl : left = rest :=
    (List.suffix_of_suffix_length_le suffix (List.suffix_append tokens rest)
      (Nat.le_of_eq short)).eq_of_length short
  exact ⟨e', last', next', parsed, same⟩

-- The tree of `x += -a ** 2 - f(n: b, c[1])`.
def mixedSum (m : Mark) : Expr :=
  .assign m "x" (some .add) (.binary m .sub
    (.binary m .pow (.unary m .negate (.ident m "a")) (.literal m (.int 2)))
    (.call m (.ident m "f") [.mk (some "n") (.ident m "b"),
      .mk none (.member m (.ident m "c") (.computed (.literal m (.int 1))))]))

theorem mixedSumReadBack : ∃ e' last next, Parser.bounded Parser.expression
      ⟨[.ident "x", .compound (.symbol .plus), .symbol .minus, .ident "a", .symbol .starStar,
        .integer 2, .symbol .minus, .ident "f", .symbol .lParen, .ident "n", .symbol .colon,
        .ident "b", .symbol .comma, .ident "c", .symbol .lBracket, .integer 1, .symbol .rBracket,
        .symbol .rParen].map (Spanned.mk · .start) ++ [⟨.symbol .semicolon, .start⟩], none, 0⟩ =
      .ok (e', ⟨[⟨.symbol .semicolon, .start⟩], last, next⟩) ∧ (mixedSum ⟨0, .start⟩).Same e' :=
  expressionReadBack (mixedSum ⟨0, .start⟩)
    (by simp [mixedSum, Expr.Fits, argsFit, Expr.level, BinaryOp.level, BinaryOp.places,
      BinaryOp.symbol, Symbol.isCompoundable])
    _ _ rfl (by rintro _ ⟨⟩; rfl) none 0

end Quill
