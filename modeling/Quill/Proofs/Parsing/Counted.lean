import Quill.Proofs.Parsing.Numbered

/-! How many nodes a program has: no more than there are tokens. Each node that the parser makes is
paid for by a token that it has read for it. -/
namespace Quill

namespace Parser

/-- What it gives takes at most as many nodes as tokens are read, besides `spare` ones that are paid
for by then. If it is `ready`, there is something to read when it begins. -/
def Pays {α : Type} (ready : Bool) (spare : Nat) (p : Parser α) : Prop :=
  ∀ c a c', (ready → c.rest ≠ []) → p c = .ok (a, c') →
    c'.next + c'.rest.length ≤ c.next + c.rest.length + spare

class Looks {α : Type} (p : Parser α) : Prop where
  keeps {c : Cursor} {a : α} {c' : Cursor} (parsed : p c = .ok (a, c')) : c' = c

instance : Looks here := ⟨by rintro c _ _ ⟨⟩; rfl⟩

instance : Looks peek := ⟨by rintro c _ _ ⟨⟩; rfl⟩

instance : Looks peekNext := ⟨by rintro c _ _ ⟨⟩; rfl⟩

instance {s : Symbol} : Looks (isNext s) := by
  refine ⟨fun parsed => ?_⟩
  obtain ⟨token, c₁, looked, rest⟩ := bindParsed parsed
  cases Looks.keeps looked
  cases rest
  rfl

class Consumes {α : Type} (p : Parser α) : Prop where
  fewer {c : Cursor} {a : α} {c' : Cursor} (parsed : p c = .ok (a, c')) :
    c'.next = c.next ∧ c'.rest.length < c.rest.length

theorem advanceCut {c c' : Cursor} {token : Option Token} (parsed : advance c = .ok (token, c')) :
    c'.next = c.next ∧ c'.rest.length = c.rest.length - 1 := by
  unfold advance at parsed
  split at parsed <;> rename_i whole <;> cases parsed <;> rw [whole] <;> exact ⟨rfl, rfl⟩

theorem advanceFewer {c c' : Cursor} {token : Option Token} (parsed : advance c = .ok (token, c'))
    (more : c.rest ≠ []) : c'.next = c.next ∧ c'.rest.length < c.rest.length := by
  obtain ⟨same, cut⟩ := advanceCut parsed
  have some := List.length_pos_iff.mpr more
  exact ⟨same, by omega⟩

namespace Pays

variable {α β : Type} {ready : Bool} {spare : Nat}

theorem pure {a : α} : Pays ready spare (Pure.pure a) := by
  rintro c _ _ - ⟨⟩
  exact Nat.le_add_right _ _

theorem fail {cause : ParseCause} : Pays (α := α) ready spare (Parser.fail cause) := by
  rintro c a c' - ⟨⟩

theorem bind {p : Parser α} {f : α → Parser β} (first : Pays ready 0 p)
    (second : ∀ a, Pays false spare (f a)) : Pays ready spare (p >>= f) := by
  intro c b c' reads parsed
  obtain ⟨a, c₁, here, there⟩ := bindParsed parsed
  have paid := first c a c₁ reads here
  have paid' := second a c₁ b c' nofun there
  omega

theorem map {p : Parser α} {f : α → β} (first : Pays ready 0 p) : Pays ready 0 (f <$> p) :=
  first.bind fun _ => pure

theorem ite {c : Prop} [Decidable c] {p q : Parser α} (yes : Pays ready spare p)
    (no : Pays ready spare q) : Pays ready spare (if c then p else q) := by
  split
  · exact yes
  · exact no

theorem look {p : Parser α} {f : α → Parser β} [looks : Looks p]
    (second : ∀ a, Pays ready spare (f a)) : Pays ready spare (p >>= f) := by
  intro c b c' reads parsed
  obtain ⟨a, c₁, here, there⟩ := bindParsed parsed
  cases looks.keeps here
  exact second a c b c' reads there

theorem peek {f : Option Token → Parser β} (seen : ∀ t, Pays true spare (f (some t)))
    (ended : Pays ready spare (f none)) : Pays ready spare (Parser.peek >>= f) := by
  intro c b c' reads parsed
  change f (c.rest.head?.map (·.token)) c = .ok (b, c') at parsed
  cases left : c.rest with
  | nil =>
    rw [left] at parsed
    rw [← left]
    exact ended c b c' reads parsed
  | cons t rest =>
    rw [left] at parsed
    rw [← left]
    exact seen t.token c b c' (fun _ => left ▸ List.cons_ne_nil t rest) parsed

theorem advance {f : Option Token → Parser β} (second : ∀ t, Pays false (spare + 1) (f t)) :
    Pays true spare (Parser.advance >>= f) := by
  intro c b c' reads parsed
  obtain ⟨t, c₁, here, there⟩ := bindParsed parsed
  obtain ⟨same, fewer⟩ := advanceFewer here (reads rfl)
  have paid := second t c₁ b c' nofun there
  omega

theorem consume {p : Parser α} {f : α → Parser β} [consumes : Consumes p]
    (second : ∀ a, Pays false (spare + 1) (f a)) : Pays ready spare (p >>= f) := by
  intro c b c' _ parsed
  obtain ⟨a, c₁, here, there⟩ := bindParsed parsed
  obtain ⟨same, fewer⟩ := consumes.fewer here
  have paid := second a c₁ b c' nofun there
  omega

theorem mark {span : Span} {f : Mark → Parser β} (second : ∀ m, Pays false spare (f m)) :
    Pays ready (spare + 1) (Parser.mark span >>= f) := by
  intro c b c' _ parsed
  obtain ⟨m, c₁, here, there⟩ := bindParsed parsed
  cases here
  have paid := second _ _ b c' nofun there
  dsimp only at paid
  omega

theorem plain {p : Parser α} [plain : Plain p] : Pays ready 0 p := by
  have free : ∀ c a c', p c = .ok (a, c') →
      c'.next = c.next ∧ c'.rest.length ≤ c.rest.length := by
    induction plain with
    | pure a => rintro c _ _ ⟨⟩; exact ⟨rfl, Nat.le_refl _⟩
    | fail cause => rintro c a c' ⟨⟩
    | peek | peekNext => rintro c _ _ ⟨⟩; exact ⟨rfl, Nat.le_refl _⟩
    | advance =>
      intro c a c' parsed
      obtain ⟨same, cut⟩ := advanceCut parsed
      exact ⟨same, by omega⟩
    | bind _ _ ih ih' =>
      intro c b c' parsed
      obtain ⟨a, c₁, here, there⟩ := bindParsed parsed
      obtain ⟨same, fewer⟩ := ih c a c₁ here
      obtain ⟨same', fewer'⟩ := ih' a c₁ b c' there
      exact ⟨same'.trans same, Nat.le_trans fewer' fewer⟩
  intro c a c' _ parsed
  obtain ⟨same, fewer⟩ := free c a c' parsed
  omega

theorem past {p : Parser α} {f : α → Parser β} [Plain p] (second : ∀ a, Pays false spare (f a)) :
    Pays ready spare (p >>= f) :=
  plain.bind second

end Pays

theorem peekedSome {c : Cursor} {t : Token} (ahead : c.peek = some t) : c.rest ≠ [] := by
  intro none
  rw [Cursor.peek, none] at ahead
  cases ahead

theorem eatCut {s : Symbol} {c c' : Cursor} {eaten : Bool} (parsed : eat s c = .ok (eaten, c')) :
    c'.next = c.next ∧ c'.rest.length + eaten.toNat ≤ c.rest.length := by
  obtain ⟨next, c₁, looked, moved⟩ := bindParsed parsed
  cases looked
  by_cases ahead : c.peek = some (.symbol s)
  · rw [if_pos (decide_eq_true ahead)] at moved
    obtain ⟨t, c₂, cut, done⟩ := bindParsed moved
    cases done
    exact advanceFewer cut (peekedSome ahead)
  · rw [if_neg (by simpa using ahead)] at moved
    cases moved
    exact ⟨rfl, Nat.le_refl _⟩

instance {s : Symbol} {slot : Slot} : Consumes (expect s slot) := by
  refine ⟨fun {c a c'} parsed => ?_⟩
  obtain ⟨eaten, c₁, read, done⟩ := bindParsed parsed
  obtain ⟨same, fewer⟩ := eatCut read
  cases eaten with
  | true =>
    cases done
    exact ⟨same, fewer⟩
  | false => cases done

instance {slot : Slot} : Consumes (expectName slot) := by
  refine ⟨fun {c a c'} parsed => ?_⟩
  unfold expectName at parsed
  obtain ⟨token, c₁, looked, moved⟩ := bindParsed parsed
  cases looked
  cases ahead : c.peek with
  | none =>
    rw [ahead] at moved
    cases moved
  | some token =>
    rw [ahead] at moved
    cases token with
    | ident name =>
      obtain ⟨t, c₂, cut, done⟩ := bindParsed moved
      cases done
      exact advanceFewer cut (peekedSome ahead)
    | _ => cases moved

theorem Pays.eat {β : Type} {ready : Bool} {spare : Nat} {s : Symbol} {f : Bool → Parser β}
    (yes : Pays false (spare + 1) (f true)) (no : Pays false spare (f false)) :
    Pays ready spare (Parser.eat s >>= f) := by
  intro c b c' _ parsed
  obtain ⟨eaten, c₁, read, there⟩ := bindParsed parsed
  obtain ⟨same, fewer⟩ := eatCut read
  cases eaten with
  | true =>
    have paid := yes c₁ b c' nofun there
    rw [Bool.toNat_true] at fewer
    omega
  | false =>
    have paid := no c₁ b c' nofun there
    rw [Bool.toNat_false] at fewer
    omega

structure PaysWithin (fuel : Nat) : Prop where
  statement {ready : Bool} : Pays ready 0 (statement fuel)
  initializer {ready : Bool} : Pays ready 0 (initializer fuel)
  signature {ready : Bool} : Pays ready 0 (signature fuel)
  parameters {ready : Bool} : Pays ready 0 (parameters fuel)
  ifElse : Pays true 0 (ifElse fuel)
  block {ready : Bool} : Pays ready 0 (block fuel)
  blockBody {ready : Bool} : Pays ready 0 (blockBody fuel)
  expression {ready : Bool} : Pays ready 0 (expression fuel)
  assignment {ready : Bool} : Pays ready 0 (assignment fuel)
  binary {ready : Bool} (level : Nat) : Pays ready 0 (binary level fuel)
  binaryRest {ready : Bool} (level : Nat) (left : Expr) : Pays ready 0 (binaryRest level left fuel)
  power {ready : Bool} : Pays ready 0 (power fuel)
  unary {ready : Bool} : Pays ready 0 (unary fuel)
  suffixes {ready : Bool} (e : Expr) : Pays ready 0 (suffixes e fuel)
  arguments {ready : Bool} : Pays ready 0 (arguments fuel)
  primary {ready : Bool} : Pays ready 0 (primary fuel)
  properties {ready : Bool} : Pays ready 0 (properties fuel)

namespace PaysWithin

theorem exhausted : PaysWithin 0 := by
  constructor <;> intros <;> exact .fail

variable {fuel : Nat} (within : PaysWithin fuel) {ready : Bool}
include within

theorem statementNext : Pays ready 0 (Parser.statement (fuel + 1)) := by
  rw [Parser.statement]
  refine .look fun span => .peek (fun token => .look fun behind => ?_) (.look fun behind => ?_)
  · split
    · refine .past fun _ => .past fun next => ?_
      extract_lets mutable go
      have goes (x : Unit) : Pays false 0 (go x) :=
        .consume fun name => .past fun type => within.initializer.bind fun init =>
          .consume fun _ => .mark fun _ => .pure
      exact .ite (.past fun _ => goes ()) (goes ())
    · exact .advance fun _ => .past fun _ => within.signature.bind fun s =>
        within.block.bind fun body => .mark fun _ => .pure
    · have type := (typesPlain fuel).type
      exact .past fun _ => .consume fun name => .past fun _ => .past fun aliased => .past fun _ =>
        .mark fun _ => .pure
    · exact within.ifElse
    · exact .advance fun _ => within.expression.bind fun condition => within.block.bind fun body =>
        .mark fun _ => .pure
    · refine .past fun _ => .past fun bare => .ite ?_ ?_
      · exact .consume fun _ => .mark fun _ => .pure
      · exact within.expression.bind fun value => .consume fun _ => .mark fun _ => .pure
    · exact within.block.bind fun body => .pure
    · exact within.expression.bind fun value => .consume fun _ => .mark fun _ => .pure
  · exact within.expression.bind fun value => .consume fun _ => .mark fun _ => .pure

theorem initializerNext : Pays ready 0 (Parser.initializer (fuel + 1)) := by
  rw [Parser.initializer]
  exact .past fun given => .ite (within.expression.bind fun value => .pure) .pure

theorem signatureNext : Pays ready 0 (Parser.signature (fuel + 1)) := by
  rw [Parser.signature]
  exact .past fun _ => within.parameters.bind fun params => .past fun _ => .past fun ret => .pure

theorem parametersNext : Pays ready 0 (Parser.parameters (fuel + 1)) := by
  rw [Parser.parameters]
  refine .past fun closed => .ite .pure (.past fun name => .past fun type => ?_)
  refine within.initializer.bind fun default => .past fun more => .ite ?_ .pure
  exact within.parameters.bind fun rest => .pure

theorem ifElseNext : Pays true 0 (Parser.ifElse (fuel + 1)) := by
  rw [Parser.ifElse]
  refine .look fun span => .advance fun _ => within.expression.bind fun condition => ?_
  refine within.block.bind fun thenBranch => .past fun token => ?_
  extract_lets go
  have goes (other : Option Stmt) : Pays false 1 (go other) := .mark fun _ => .pure
  refine .ite (.past fun _ => .peek (fun token => ?_) ?_) (.bind .pure goes)
  · exact .ite (.bind (.map within.ifElse) goes) (.bind (.map within.block) goes)
  · rw [if_neg (by decide)]
    exact .bind (.map within.block) goes

theorem blockNext : Pays ready 0 (Parser.block (fuel + 1)) := by
  rw [Parser.block]
  exact .look fun span => .consume fun _ => within.blockBody.bind fun body => .mark fun _ => .pure

theorem blockBodyNext : Pays ready 0 (Parser.blockBody (fuel + 1)) := by
  rw [Parser.blockBody]
  refine .past fun token => ?_
  split
  · exact .past fun _ => .pure
  · exact .fail
  · exact .fail
  · exact within.statement.bind fun s => within.blockBody.bind fun rest => .pure

theorem expressionNext : Pays ready 0 (Parser.expression (fuel + 1)) := by
  rw [Parser.expression]
  refine .past fun token => .past fun behind => ?_
  split
  · exact within.assignment
  · exact within.assignment
  · exact within.binary 0

theorem assignmentNext : Pays ready 0 (Parser.assignment (fuel + 1)) := by
  rw [Parser.assignment]
  refine .look fun span => .consume fun target => .past fun token => ?_
  extract_lets go
  have goes (op : Option BinaryOp) : Pays false 1 (go op) :=
    within.expression.bind fun value => .mark fun _ => .pure
  split
  · split
    · exact .past goes
    · exact .past goes
  · exact .past goes

theorem binaryNext (level : Nat) : Pays ready 0 (Parser.binary level (fuel + 1)) := by
  rw [Parser.binary]
  refine .ite within.power ?_
  exact (within.binary (level + 1)).bind fun left => within.binaryRest level left

theorem binaryRestNext (level : Nat) (left : Expr) :
    Pays ready 0 (Parser.binaryRest level left (fuel + 1)) := by
  rw [Parser.binaryRest]
  refine .look fun span => .peek (fun token => ?_) .pure
  split
  · split
    · refine .ite (.advance fun _ => ?_) .pure
      exact (within.binary (level + 1)).bind fun right => .mark fun _ => within.binaryRest level _
    · exact .pure
  · exact .pure

theorem powerNext : Pays ready 0 (Parser.power (fuel + 1)) := by
  rw [Parser.power]
  refine within.unary.bind fun base => .look fun span => .eat ?_ .pure
  exact within.power.bind fun exponent => .mark fun _ => .pure

theorem unaryNext : Pays ready 0 (Parser.unary (fuel + 1)) := by
  have operand {ready : Bool} :
      Pays ready 0 (Parser.primary fuel >>= fun e => Parser.suffixes e fuel) :=
    within.primary.bind fun e => within.suffixes e
  rw [Parser.unary]
  refine .look fun span => .peek (fun token => ?_) operand
  split
  · split
    · exact .advance fun _ => within.unary.bind fun operand => .mark fun _ => .pure
    · exact operand
  · exact operand

theorem suffixesNext (e : Expr) : Pays ready 0 (Parser.suffixes e (fuel + 1)) := by
  rw [Parser.suffixes]
  refine .look fun span => .peek (fun token => ?_) .pure
  split
  · exact .advance fun _ => within.arguments.bind fun args => .past fun _ => .mark fun _ =>
      within.suffixes _
  · refine .advance fun _ => .past fun token => ?_
    extract_lets go
    have goes (key : PropertyName) : Pays false 1 (go key) := .mark fun _ => within.suffixes _
    split <;> exact .past goes
  · exact .advance fun _ => within.expression.bind fun key => .past fun _ => .mark fun _ =>
      within.suffixes _
  · split
    · split
      · exact .advance fun _ => .mark fun _ => within.suffixes _
      · exact .fail
    · exact .pure
  · exact .pure

theorem argumentsNext : Pays ready 0 (Parser.arguments (fuel + 1)) := by
  rw [Parser.arguments]
  refine .past fun closed => .ite .pure (.past fun token => .past fun behind => ?_)
  extract_lets go
  have goes (name : Option String) : Pays false 0 (go name) := by
    refine within.expression.bind fun value => .past fun more => .ite ?_ .pure
    exact within.arguments.bind fun rest => .pure
  split
  · exact .past fun _ => .past fun _ => .past goes
  · exact .past goes

theorem primaryNext : Pays ready 0 (Parser.primary (fuel + 1)) := by
  rw [Parser.primary]
  refine .look fun span => .peek (fun token => ?_) .fail
  split
  · exact .fail
  · exact .advance fun _ => .mark fun _ => .pure
  · exact .advance fun _ => within.expression.bind fun inner => .past fun _ => .mark fun _ => .pure
  · exact .advance fun _ => within.signature.bind fun s => within.block.bind fun body =>
      .mark fun _ => .pure
  · exact .advance fun _ => within.properties.bind fun properties => .past fun _ =>
      .mark fun _ => .pure
  · split
    · exact .advance fun _ => .mark fun _ => .pure
    · exact .fail

theorem propertiesNext : Pays ready 0 (Parser.properties (fuel + 1)) := by
  change Pays ready 0 (_ >>= _)
  refine .past fun closed => .ite .pure (.past fun token => ?_)
  extract_lets go
  have goes (key : Key) : Pays false 0 (go key) := by
    refine .past fun _ => within.expression.bind fun value => .past fun more => .ite ?_ .pure
    exact within.properties.bind fun rest => .pure
  rcases token with _ | token
  · exact .bind .fail goes
  cases token with
  | ident | string | integer => exact .bind .pure goes
  | symbol symbol =>
    cases symbol with
    | lBracket => exact within.expression.bind fun key => .past fun _ => .bind .pure goes
    | _ => exact .bind .fail goes
  | _ => exact .bind .fail goes

end PaysWithin

theorem paysWithin (fuel : Nat) : PaysWithin fuel := by
  induction fuel with
  | zero => exact .exhausted
  | succ fuel within =>
    exact
      { statement := within.statementNext
        initializer := within.initializerNext
        signature := within.signatureNext
        parameters := within.parametersNext
        ifElse := within.ifElseNext
        block := within.blockNext
        blockBody := within.blockBodyNext
        expression := within.expressionNext
        assignment := within.assignmentNext
        binary := within.binaryNext
        binaryRest := within.binaryRestNext
        power := within.powerNext
        unary := within.unaryNext
        suffixes := within.suffixesNext
        arguments := within.argumentsNext
        primary := within.primaryNext
        properties := within.propertiesNext }

theorem statementsPay {ready : Bool} (fuel : Nat) : Pays ready 0 (statements fuel) := by
  induction fuel generalizing ready with
  | zero => exact .fail
  | succ fuel ih =>
    rw [statements]
    refine .past fun token => ?_
    split
    · exact .pure
    · exact .pure
    · exact (paysWithin fuel).statement.bind fun s => ih.bind fun rest => .pure

end Parser

theorem parsedCounted {tokens : List Spanned} {program : Program}
    (parsed : parse tokens = .ok program) : program.nodes.length ≤ tokens.length := by
  unfold parse at parsed
  cases read : Parser.program (Parser.start tokens) with
  | error e => rw [read] at parsed; cases parsed
  | ok x =>
    rw [read] at parsed
    cases parsed
    have numbered := (Parser.statementsNumbered _ 0 _ _ _ rfl read).upTo
    have paid := @Parser.statementsPay false _ _ _ _ nofun read
    have fewer : (Parser.start tokens).rest.length ≤ tokens.length := List.length_filter_le _ _
    have first : (Parser.start tokens).next = 0 := rfl
    change (stmtNodes x.1).length ≤ tokens.length
    omega

theorem scannedCounted {place : Span} {cs : List Char} {tokens : List Spanned}
    (scanned : Lexer.scan place cs = .ok tokens) : tokens.length ≤ cs.length + 1 := by
  fun_induction Lexer.scan generalizing tokens with
  | case1 place cs here =>
    cases scanned
    exact Nat.le_add_left _ _
  | case2 | case3 => cases scanned
  | case4 place cs here c rest shape r read more behind =>
    rename_i ih
    cases scanned
    have others := ih behind
    have shorter := Lexer.readToken_rest_length read
    have dropped := (List.dropWhile_suffix Lexer.isBlank (l := cs)).length_le
    rw [shape] at dropped
    rw [List.length_cons]
    omega

/-- A program has at most one node for each character, and one more. -/
theorem sourceCounted {source : String} {program : Program}
    (parsed : parseSource source = .ok program) : program.nodes.length ≤ source.length + 1 := by
  obtain ⟨tokens, scanned, read⟩ := parsedSource parsed
  have tokens := scannedCounted scanned
  rw [String.length_toList] at tokens
  exact Nat.le_trans (parsedCounted read) tokens

end Quill
