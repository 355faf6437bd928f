import Quill.Compile
import Quill.Proofs.Parsing.ReadBack
import Quill.Proofs.Parsing.TypesReadBack

/-! Statements read back from their tokens: declarations without annotations and parameters, branches
without an alternative, blocks, returns and expressions. -/
namespace Quill
open Quill.Parser

mutual

def Stmt.tokens : Stmt → List Token
  | .letDecl _ name mutable none (some init) =>
    .keyword .kwLet :: ((if mutable then [.keyword .kwMut] else []) ++
      .ident name :: .symbol .assign :: (init.tokens ++ [.symbol .semicolon]))
  | .functionDecl _ name [] none body =>
    .keyword .kwFn :: .ident name :: .symbol .lParen :: .symbol .rParen :: body.tokens
  | .ifElse _ condition thenBranch none => .keyword .kwIf :: (condition.tokens ++ thenBranch.tokens)
  | .ret _ none => [.keyword .kwReturn, .symbol .semicolon]
  | .ret _ (some value) => .keyword .kwReturn :: (value.tokens ++ [.symbol .semicolon])
  | .block body => body.tokens
  | .expr _ value => value.tokens ++ [.symbol .semicolon]
  | _ => []

def Block.tokens : Block → List Token
  | .mk _ body => .symbol .lBrace :: (stmtsTokens body ++ [.symbol .rBrace])

def stmtsTokens : List Stmt → List Token
  | [] => []
  | s :: rest => s.tokens ++ stmtsTokens rest

end

section
variable (m : Mark) (name : String) (mutable : Bool) (value : Expr) (body : Block)

theorem letTokens : (Stmt.letDecl m name mutable none (some value)).tokens =
    .keyword .kwLet :: ((if mutable then [.keyword .kwMut] else []) ++
      .ident name :: .symbol .assign :: (value.tokens ++ [.symbol .semicolon])) := rfl

theorem functionDeclTokens : (Stmt.functionDecl m name [] none body).tokens =
    .keyword .kwFn :: .ident name :: .symbol .lParen :: .symbol .rParen :: body.tokens := rfl

theorem ifTokens : (Stmt.ifElse m value body none).tokens =
    .keyword .kwIf :: (value.tokens ++ body.tokens) := rfl

theorem returnTokens : (Stmt.ret m none).tokens = [.keyword .kwReturn, .symbol .semicolon] := rfl

theorem returnValueTokens : (Stmt.ret m (some value)).tokens =
    .keyword .kwReturn :: (value.tokens ++ [.symbol .semicolon]) := rfl

theorem blockStmtTokens : (Stmt.block body).tokens = body.tokens := rfl

theorem exprStmtTokens : (Stmt.expr m value).tokens = value.tokens ++ [.symbol .semicolon] := rfl

theorem blockTokens (body : List Stmt) :
    (Block.mk m body).tokens = .symbol .lBrace :: (stmtsTokens body ++ [.symbol .rBrace]) := rfl

theorem stmtsTokensCons (s : Stmt) (rest : List Stmt) :
    stmtsTokens (s :: rest) = s.tokens ++ stmtsTokens rest := rfl

end

mutual

def Stmt.Fits : Stmt → Prop
  | .letDecl _ _ _ none (some init) => init.Fits
  | .functionDecl _ _ [] none body => body.Fits
  | .ifElse _ condition thenBranch none => condition.Fits ∧ thenBranch.Fits
  | .ret _ none => True
  | .ret _ (some value) => value.Fits
  | .block body => body.Fits
  | .expr _ value => value.Fits
  | _ => False

def Block.Fits : Block → Prop
  | .mk _ body => stmtsFit body

def stmtsFit : List Stmt → Prop
  | [] => True
  | s :: rest => s.Fits ∧ stmtsFit rest

end

mutual

inductive Stmt.Same : Stmt → Stmt → Prop where
  | letDecl (m m' : Mark) (name : String) (mutable : Bool) {init init' : Expr}
      (inits : init.Same init') :
      Stmt.Same (.letDecl m name mutable none (some init)) (.letDecl m' name mutable none (some init'))
  | functionDecl (m m' : Mark) (name : String) {body body' : Block} (bodies : body.Same body') :
      Stmt.Same (.functionDecl m name [] none body) (.functionDecl m' name [] none body')
  | ifElse (m m' : Mark) {condition condition' : Expr} {thenBranch thenBranch' : Block}
      (conditions : condition.Same condition') (branches : thenBranch.Same thenBranch') :
      Stmt.Same (.ifElse m condition thenBranch none) (.ifElse m' condition' thenBranch' none)
  | leave (m m' : Mark) : Stmt.Same (.ret m none) (.ret m' none)
  | ret (m m' : Mark) {value value' : Expr} (values : value.Same value') :
      Stmt.Same (.ret m (some value)) (.ret m' (some value'))
  | block {body body' : Block} (bodies : body.Same body') : Stmt.Same (.block body) (.block body')
  | expr (m m' : Mark) {value value' : Expr} (values : value.Same value') :
      Stmt.Same (.expr m value) (.expr m' value')

inductive Block.Same : Block → Block → Prop where
  | mk (m m' : Mark) {body body' : List Stmt} (bodies : StmtsSame body body') :
      Block.Same (.mk m body) (.mk m' body')

inductive StmtsSame : List Stmt → List Stmt → Prop where
  | nil : StmtsSame [] []
  | cons {s s' : Stmt} {rest rest' : List Stmt} (head : s.Same s') (tail : StmtsSame rest rest') :
      StmtsSame (s :: rest) (s' :: rest')

end

def Token.opensExpr : Token → Bool
  | .keyword _ | .eof | .symbol .lBrace | .symbol .rBrace | .symbol .semicolon => false
  | _ => true

theorem exprOpens : (e : Expr) → e.Fits → ∃ t more, e.tokens = t :: more ∧ t.opensExpr
  | .literal _ value, _ => ⟨_, _, rfl, by cases value <;> rfl⟩
  | .ident .., _ | .step .., _ | .assign _ _ none _, _ | .assign _ _ (some _) _, _
  | .grouping .., _ => ⟨_, _, rfl, rfl⟩
  | .unary _ op _, _ => ⟨_, _, rfl, by cases op <;> rfl⟩
  | .binary _ _ left _, fits => by
    obtain ⟨t, more, spelled, opens⟩ := exprOpens left fits.1.2
    exact ⟨t, _, by rw [Expr.tokens, spelled]; rfl, opens⟩
  | .call _ callee _, fits => by
    obtain ⟨t, more, spelled, opens⟩ := exprOpens callee fits.1.2
    exact ⟨t, _, by rw [Expr.tokens, spelled]; rfl, opens⟩
  | .member _ object (.known _), fits => by
    obtain ⟨t, more, spelled, opens⟩ := exprOpens object fits.2
    exact ⟨t, _, by rw [Expr.tokens, spelled]; rfl, opens⟩
  | .member _ object (.computed _), fits => by
    obtain ⟨t, more, spelled, opens⟩ := exprOpens object fits.1.2
    exact ⟨t, _, by rw [Expr.tokens, spelled]; rfl, opens⟩

def Token.opensStmt : Token → Bool
  | .symbol .rBrace | .eof | .keyword .kwElse => false
  | _ => true

theorem stmtOpens : (s : Stmt) → s.Fits → ∃ t more, s.tokens = t :: more ∧ t.opensStmt
  | .letDecl _ _ _ none (some _), _ | .functionDecl _ _ [] none _, _ | .ifElse _ _ _ none, _
  | .ret _ none, _ | .ret _ (some _), _ | .block (.mk _ _), _ => ⟨_, _, rfl, rfl⟩
  | .expr m value, fits => by
    obtain ⟨t, more, spelled, opens⟩ := exprOpens value fits
    refine ⟨t, _, by rw [exprStmtTokens, spelled]; rfl, ?_⟩
    cases t with
    | symbol s => cases s <;> first | rfl | cases opens
    | _ => first | rfl | cases opens

def Stmt.ReadsBack (s : Stmt) : Prop :=
  ∀ fuel after, 16 * s.tokens.length + 1 ≤ fuel → after.head? ≠ some (.keyword .kwElse) →
    Takes (statement fuel) (s.tokens ++ after) after s.Same

def Block.ReadsBack (b : Block) : Prop :=
  ∀ fuel after, 16 * b.tokens.length ≤ fuel → Takes (block fuel) (b.tokens ++ after) after b.Same

def StmtsReadBack (body : List Stmt) : Prop :=
  ∀ fuel after, 16 * (stmtsTokens body).length + 2 ≤ fuel →
    Takes (blockBody fuel) (stmtsTokens body ++ .symbol .rBrace :: after) after (StmtsSame body)

section
variable (m : Mark) {fuel : Nat} {after : List Token}

theorem takesValue {e : Expr} (fits : e.Fits) {s : Symbol} (enough : 16 * e.tokens.length + 14 ≤ fuel)
    (short : (Token.symbol s).reach = 0) :
    Takes (expression fuel) (e.tokens ++ .symbol s :: after) (.symbol s :: after) e.Same :=
  (exprReadBack e fits).expression fuel _ enough (.cons (Nat.le_of_eq short) _)

theorem exprStmtReads {value : Expr} (fits : value.Fits) : (Stmt.expr m value).ReadsBack := by
  intro fuel after enough _
  rw [exprStmtTokens, List.length_append, List.length_singleton] at enough
  obtain ⟨fuel, rfl⟩ : ∃ n, fuel = n + 1 := ⟨fuel - 1, by omega⟩
  have valued (span : Span) : Takes (do
      let value ← expression fuel
      expect .semicolon .afterExpression
      return .expr (← mark span) value) (value.tokens ++ .symbol .semicolon :: after) after
      (Stmt.expr m value).Same :=
    (takesValue fits (by omega) rfl).bind fun value' same => (takesExpected _ _).bind fun _ _ =>
      (takesMark span).bind fun m' _ => .pure (.expr m m' same)
  obtain ⟨t, more, spelled, opens⟩ := exprOpens value fits
  have first : (value.tokens ++ .symbol .semicolon :: after).head? = some t := by rw [spelled]; rfl
  have noKeyword (k : Keyword) : t ≠ .keyword k := by
    rintro rfl
    cases opens
  rw [statement, exprStmtTokens, List.append_assoc, List.singleton_append]
  refine takesHere.bind fun span _ => takesPeek.step (takesPeekNext.step ?_)
  rw [first]
  split
  iterate 6 exact absurd (Option.some.inj ‹some t = some (.keyword _)›) (noKeyword _)
  · cases Option.some.inj ‹some t = _›
    cases opens
  · exact valued span

theorem letReads (name : String) (mutable : Bool) {init : Expr} (fits : init.Fits) :
    (Stmt.letDecl m name mutable none (some init)).ReadsBack := by
  intro fuel after enough _
  rw [letTokens] at enough ⊢
  simp only [List.length_cons, List.length_append] at enough
  obtain ⟨fuel, rfl⟩ : ∃ n, fuel = n + 2 := ⟨fuel - 2, by omega⟩
  have initialized : Takes (initializer (fuel + 1))
      (.symbol .assign :: (init.tokens ++ .symbol .semicolon :: after)) (.symbol .semicolon :: after)
      fun given => ∃ init', given = some init' ∧ init.Same init' := by
    rw [initializer]
    exact (takesEat _).step ((takesValue fits (by omega) rfl).bind fun init' same =>
      .pure ⟨init', rfl, same⟩)
  have unannotated : Takes ( annotation (fuel + 1))
      (.symbol .assign :: (init.tokens ++ .symbol .semicolon :: after))
      (.symbol .assign :: (init.tokens ++ .symbol .semicolon :: after)) (· = none) :=
    (takesNothing (by nofun)).step (.pure rfl)
  have declared (span : Span) : Takes (do
      let name ← expectName .letName
      let type ← annotation (fuel + 1)
      let init ← initializer (fuel + 1)
      expect .semicolon .afterLetDecl
      return .letDecl (← mark span) name mutable type init)
      (.ident name :: .symbol .assign :: (init.tokens ++ .symbol .semicolon :: after)) after
      (Stmt.letDecl m name mutable none (some init)).Same := by
    refine (takesName name _).step (unannotated.step (initialized.bind ?_))
    rintro _ ⟨init', rfl, same⟩
    exact (takesExpected _ _).bind fun _ _ => (takesMark span).bind fun m' _ =>
      .pure (.letDecl m m' name mutable same)
  rw [statement]
  refine takesHere.bind fun span _ => takesPeek.step (takesPeekNext.step ?_)
  simp only [List.cons_append, List.append_assoc, List.nil_append]
  refine takesAdvance.step (takesPeek.step ?_)
  cases mutable with
  | true => exact takesAdvance.step (declared span)
  | false => exact declared span

theorem returnReads : (Stmt.ret m none).ReadsBack := by
  intro fuel after enough _
  obtain ⟨fuel, rfl⟩ : ∃ n, fuel = n + 1 := ⟨fuel - 1, by omega⟩
  rw [statement, returnTokens]
  refine takesHere.bind fun span _ => takesPeek.step (takesPeekNext.step ?_)
  refine takesAdvance.step ((takesIsNext _).step ?_)
  exact (takesExpected _ _).bind fun _ _ => (takesMark span).bind fun m' _ => .pure (.leave m m')

theorem returnValueReads {value : Expr} (fits : value.Fits) :
    (Stmt.ret m (some value)).ReadsBack := by
  intro fuel after enough _
  rw [returnValueTokens] at enough ⊢
  simp only [List.length_cons, List.length_append] at enough
  obtain ⟨fuel, rfl⟩ : ∃ n, fuel = n + 1 := ⟨fuel - 1, by omega⟩
  obtain ⟨t, more, spelled, opens⟩ := exprOpens value fits
  have other : (value.tokens ++ .symbol .semicolon :: after).head? ≠ some (.symbol .semicolon) := by
    rw [spelled]
    rintro ⟨⟩
    cases opens
  rw [statement, List.cons_append, List.append_assoc]
  refine takesHere.bind fun span _ => takesPeek.step (takesPeekNext.step ?_)
  refine takesAdvance.step ((takesIsNext _).step ?_)
  rw [List.singleton_append, decide_eq_false other, if_neg Bool.false_ne_true]
  exact (takesValue fits (by omega) rfl).bind fun value' same => (takesExpected _ _).bind fun _ _ =>
    (takesMark span).bind fun m' _ => .pure (.ret m m' same)

theorem ifReads {condition : Expr} (fits : condition.Fits) {thenBranch : Block}
    (reads : thenBranch.ReadsBack) : (Stmt.ifElse m condition thenBranch none).ReadsBack := by
  intro fuel after enough other
  rw [ifTokens] at enough ⊢
  simp only [List.length_cons, List.length_append] at enough
  obtain ⟨fuel, rfl⟩ : ∃ n, fuel = n + 2 := ⟨fuel - 2, by omega⟩
  rw [statement, List.cons_append, List.append_assoc]
  refine takesHere.bind fun span _ => takesPeek.step (takesPeekNext.step ?_)
  simp only [List.head?_cons]
  rw [ifElse]
  refine takesHere.bind fun span _ => takesAdvance.step ?_
  have conditions : Takes (expression fuel) (condition.tokens ++ (thenBranch.tokens ++ after))
      (thenBranch.tokens ++ after) condition.Same := by
    cases thenBranch with
    | mk _ _ => exact takesValue fits (by omega) rfl
  refine conditions.bind fun condition' same => ?_
  refine (reads fuel after (by omega)).bind fun thenBranch' same' => ?_
  refine takesPeek.step ?_
  rw [if_neg other]
  exact Takes.step (.pure rfl) ((takesMark span).bind fun m' _ => .pure (.ifElse m m' same same'))

theorem functionDeclReads (name : String) {body : Block} (reads : body.ReadsBack) :
    (Stmt.functionDecl m name [] none body).ReadsBack := by
  intro fuel after enough _
  rw [functionDeclTokens] at enough ⊢
  simp only [List.length_cons] at enough
  obtain ⟨fuel, rfl⟩ : ∃ n, fuel = n + 3 := ⟨fuel - 3, by omega⟩
  have unannotated : Takes ( annotation (fuel + 1)) (body.tokens ++ after) (body.tokens ++ after)
      (· = none) := by
    cases body with
    | mk _ _ => exact (takesNothing (by nofun)).step (.pure rfl)
  have signed : Takes (signature (fuel + 2))
      (.symbol .lParen :: .symbol .rParen :: (body.tokens ++ after)) (body.tokens ++ after)
      (· = ([], none)) := by
    have params : Takes (parameters (fuel + 1)) (.symbol .rParen :: (body.tokens ++ after))
        (.symbol .rParen :: (body.tokens ++ after)) (· = []) := by
      rw [parameters]
      exact (takesIsNext _).step (.pure rfl)
    rw [signature]
    refine (takesExpected _ _).bind fun _ _ => params.step ?_
    exact (takesExpected _ _).bind fun _ _ => unannotated.step (.pure rfl)
  rw [statement]
  refine takesHere.bind fun span _ => takesPeek.step (takesPeekNext.step ?_)
  refine takesAdvance.step (takesAdvance.step (signed.step ?_))
  exact (reads _ after (by omega)).bind fun body' same => (takesMark span).bind fun m' _ =>
    .pure (.functionDecl m m' name same)

theorem blockReads {body : List Stmt} (reads : StmtsReadBack body) :
    (Block.mk m body).ReadsBack := by
  intro fuel after enough
  rw [blockTokens] at enough ⊢
  simp only [List.length_cons, List.length_append] at enough
  obtain ⟨fuel, rfl⟩ : ∃ n, fuel = n + 1 := ⟨fuel - 1, by omega⟩
  rw [block, List.cons_append, List.append_assoc]
  refine takesHere.bind fun span _ => (takesExpected _ _).bind fun _ _ => ?_
  exact (reads fuel after (by omega)).bind fun body' same => (takesMark span).bind fun m' _ =>
    .pure (.mk m m' same)

theorem blockStmtReads {body : Block} (reads : body.ReadsBack) : (Stmt.block body).ReadsBack := by
  intro fuel after enough _
  rw [blockStmtTokens] at enough ⊢
  obtain ⟨fuel, rfl⟩ : ∃ n, fuel = n + 1 := ⟨fuel - 1, by omega⟩
  have blocks := reads fuel after (by omega)
  cases body with
  | mk _ body =>
    rw [statement]
    refine takesHere.bind fun span _ => takesPeek.step (takesPeekNext.step ?_)
    exact blocks.bind fun body' same => .pure (.block same)

theorem noStmtsRead : StmtsReadBack [] := by
  intro fuel after enough
  obtain ⟨fuel, rfl⟩ : ∃ n, fuel = n + 1 := ⟨fuel - 1, by omega⟩
  rw [blockBody]
  exact takesPeek.step (takesAdvance.step (.pure .nil))

theorem noElse {body : List Stmt} (fits : stmtsFit body)
    (other : after.head? ≠ some (.keyword .kwElse)) :
    (stmtsTokens body ++ after).head? ≠ some (.keyword .kwElse) := by
  cases body with
  | nil => exact other
  | cons s rest =>
    obtain ⟨t, more, spelled, opens⟩ := stmtOpens s fits.1
    rw [stmtsTokensCons, spelled]
    rintro ⟨⟩
    cases opens

theorem stmtsRead {s : Stmt} {rest : List Stmt} (fits : s.Fits) (restFits : stmtsFit rest)
    (reads : s.ReadsBack) (others : StmtsReadBack rest) : StmtsReadBack (s :: rest) := by
  intro fuel after enough
  obtain ⟨t, more, spelled, opens⟩ := stmtOpens s fits
  have first (behind : List Token) : (s.tokens ++ behind).head? = some t := by rw [spelled]; rfl
  have nonempty : 0 < s.tokens.length := by rw [spelled]; exact Nat.zero_lt_succ _
  rw [stmtsTokensCons, List.length_append] at enough
  obtain ⟨fuel, rfl⟩ : ∃ n, fuel = n + 1 := ⟨fuel - 1, by omega⟩
  rw [blockBody, stmtsTokensCons, List.append_assoc]
  refine takesPeek.step ?_
  rw [first]
  split
  · cases Option.some.inj ‹some t = _›
    cases opens
  · cases Option.some.inj ‹some t = _›
    cases opens
  · cases ‹some t = none›
  · refine (reads fuel _ (by omega) (noElse restFits (by nofun))).bind fun s' same => ?_
    exact (others fuel after (by omega)).bind fun rest' same' => .pure (.cons same same')

end

mutual

theorem stmtReadBack : (s : Stmt) → s.Fits → s.ReadsBack
  | .letDecl m name mutable none (some _), fits => letReads m name mutable fits
  | .functionDecl m name [] none body, fits => functionDeclReads m name (blockReadBack body fits)
  | .ifElse m _ thenBranch none, fits => ifReads m fits.1 (blockReadBack thenBranch fits.2)
  | .ret m none, _ => returnReads m
  | .ret m (some _), fits => returnValueReads m fits
  | .block body, fits => blockStmtReads (blockReadBack body fits)
  | .expr m _, fits => exprStmtReads m fits

theorem blockReadBack : (b : Block) → b.Fits → b.ReadsBack
  | .mk m body, fits => blockReads m (stmtsReadBack body fits)

theorem stmtsReadBack : (body : List Stmt) → stmtsFit body → StmtsReadBack body
  | [], _ => noStmtsRead
  | s :: rest, fits => stmtsRead fits.1 fits.2 (stmtReadBack s fits.1) (stmtsReadBack rest fits.2)

end

theorem statementsRead (p : Program) (fits : stmtsFit p) (fuel : Nat)
    (enough : 16 * (stmtsTokens p).length + 2 ≤ fuel) :
    Takes (statements fuel) (stmtsTokens p ++ [.eof]) [.eof] (StmtsSame p) := by
  induction p generalizing fuel with
  | nil =>
    obtain ⟨fuel, rfl⟩ : ∃ n, fuel = n + 1 := ⟨fuel - 1, by omega⟩
    rw [statements]
    exact takesPeek.step (.pure .nil)
  | cons s rest ih =>
    obtain ⟨t, more, spelled, opens⟩ := stmtOpens s fits.1
    have first (behind : List Token) : (s.tokens ++ behind).head? = some t := by rw [spelled]; rfl
    have nonempty : 0 < s.tokens.length := by rw [spelled]; exact Nat.zero_lt_succ _
    rw [stmtsTokensCons, List.length_append] at enough
    obtain ⟨fuel, rfl⟩ : ∃ n, fuel = n + 1 := ⟨fuel - 1, by omega⟩
    rw [statements, stmtsTokensCons, List.append_assoc]
    refine takesPeek.step ?_
    rw [first]
    split
    · cases Option.some.inj ‹some t = _›
      cases opens
    · cases ‹some t = none›
    · have ends : [Token.eof].head? ≠ some (.keyword .kwElse) := by nofun
      refine (stmtReadBack s fits.1 fuel _ (by omega) (noElse fits.2 ends)).bind fun s' same => ?_
      exact (ih fits.2 fuel (by omega)).bind fun rest' same' => .pure (.cons same same')

/-- A program is read back from its text. -/
theorem programReadBack {p : Program} (fits : stmtsFit p) {gap : Token → Option Token → List Char}
    (blank : ∀ t u, ∀ c ∈ gap t u, Lexer.isBlank c) {text : List Char}
    (written : Lexer.Written gap (stmtsTokens p) text)
    (spaced : (stmtsTokens p).IsChain (Lexer.Spaced gap)) :
    ∃ p', parseSource (String.ofList text) = .ok p' ∧ StmtsSame p p' := by
  obtain ⟨tokens, lexed, same⟩ := written.lexed blank spaced
  have long : tokens.length = (stmtsTokens p).length + 1 := by
    rw [← List.length_map (·.token), same, List.length_append, List.length_singleton]
  have enough : 16 * (stmtsTokens p).length + 2 ≤ bound tokens := by
    rw [bound, descent]
    omega
  obtain ⟨p', left, parsed, -, -, read⟩ := statementsRead p fits _ enough ⟨tokens, none, 0⟩ same
  have whole : parse tokens = .ok p' := by
    rw [parse, startWritten written same, program, bounded, parsed]
    rfl
  refine ⟨p', ?_, read⟩
  rw [parseSource, lexed]
  simp only [whole]

end Quill
