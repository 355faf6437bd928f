import Quill.Proofs.Parsing.Plain

/-! Parsing does not depend on places. With all places forgotten beforehand the parser reads what it
reads otherwise, with the places forgotten afterwards: nodes have the same numbers, and a fault has
the same cause. -/
namespace Quill

def Mark.unplaced (m : Mark) : Mark := { m with span := .start }

mutual

def Expr.unplaced : Expr → Expr
  | .literal m value => .literal m.unplaced value
  | .ident m name => .ident m.unplaced name
  | .binary m op left right => .binary m.unplaced op left.unplaced right.unplaced
  | .unary m op operand => .unary m.unplaced op operand.unplaced
  | .step m op target v => .step m.unplaced op target v.unplaced
  | .assign m target op value => .assign m.unplaced target op value.unplaced
  | .call m callee args => .call m.unplaced callee.unplaced (argsUnplaced args)
  | .function m params ret body => .function m.unplaced (paramsUnplaced params) ret body.unplaced
  | .object m properties => .object m.unplaced (propertiesUnplaced properties)
  | .member m object key => .member m.unplaced object.unplaced key.unplaced
  | .grouping m inner => .grouping m.unplaced inner.unplaced

def optionalUnplaced : Option Expr → Option Expr
  | none => none
  | some e => some e.unplaced

def argsUnplaced : List Arg → List Arg
  | [] => []
  | .mk name value :: rest => .mk name value.unplaced :: argsUnplaced rest

def paramsUnplaced : List Param → List Param
  | [] => []
  | .mk name type default :: rest => .mk name type (optionalUnplaced default) :: paramsUnplaced rest

def Key.unplaced : Key → Key
  | .known name => .known name
  | .computed key => .computed key.unplaced

def propertiesUnplaced : List Property → List Property
  | [] => []
  | .mk key value :: rest => .mk key.unplaced value.unplaced :: propertiesUnplaced rest

def Stmt.unplaced : Stmt → Stmt
  | .letDecl m name mutable type init =>
    .letDecl m.unplaced name mutable type (optionalUnplaced init)
  | .functionDecl m name params ret body =>
    .functionDecl m.unplaced name (paramsUnplaced params) ret body.unplaced
  | .typeAlias m name type => .typeAlias m.unplaced name type
  | .ifElse m condition thenBranch none =>
    .ifElse m.unplaced condition.unplaced thenBranch.unplaced none
  | .ifElse m condition thenBranch (some elseBranch) =>
    .ifElse m.unplaced condition.unplaced thenBranch.unplaced (some elseBranch.unplaced)
  | .whileLoop m condition body => .whileLoop m.unplaced condition.unplaced body.unplaced
  | .ret m value => .ret m.unplaced (optionalUnplaced value)
  | .block body => .block body.unplaced
  | .expr m value => .expr m.unplaced value.unplaced

def stmtsUnplaced : List Stmt → List Stmt
  | [] => []
  | s :: rest => s.unplaced :: stmtsUnplaced rest

def Block.unplaced : Block → Block
  | .mk m body => .mk m.unplaced (stmtsUnplaced body)

end

def Spanned.unplaced (t : Spanned) : Spanned := ⟨t.token, .start⟩

def Cursor.unplaced (c : Cursor) : Cursor :=
  ⟨c.rest.map Spanned.unplaced, c.last.map fun _ => .start, c.next⟩

namespace Parser

def endUnplaced {α : Type} (u : α → α) :
    Except ParseError (α × Cursor) → Except ParseError (α × Cursor)
  | .error e => .error { e with span := .start }
  | .ok (a, c) => .ok (u a, c.unplaced)

def Unplaces {α : Type} (u : α → α) (p q : Parser α) : Prop :=
  ∀ c, q c.unplaced = endUnplaced u (p c)

theorem hereUnplaced (c : Cursor) : c.unplaced.here = .start := by
  rcases c with ⟨_ | ⟨t, rest⟩, _ | last, next⟩ <;> rfl

namespace Unplaces

variable {α β : Type} {u : α → α} {v : β → β}

theorem pure {a b : α} (same : b = u a) : Unplaces u (Pure.pure a) (Pure.pure b) := by
  subst same
  exact fun c => rfl

theorem fail {cause : ParseCause} : Unplaces u (Parser.fail cause) (Parser.fail cause) := by
  intro c
  have placed : Parser.fail (α := α) cause c.unplaced = .error ⟨cause, c.unplaced.here⟩ := rfl
  rw [placed, hereUnplaced]
  rfl

theorem bind {p q : Parser α} {f g : α → Parser β} (first : Unplaces u p q)
    (second : ∀ a, Unplaces v (f a) (g (u a))) : Unplaces v (p >>= f) (q >>= g) := by
  intro c
  have step : (q >>= g) c.unplaced = q c.unplaced >>= fun x => g x.1 x.2 := rfl
  rw [step, first c]
  cases read : p c with
  | error e =>
    have stops : (p >>= f) c = .error e := by
      change (p c >>= fun x => f x.1 x.2) = _
      rw [read]
      rfl
    rw [stops]
    rfl
  | ok x =>
    have goes : (p >>= f) c = f x.1 x.2 := by
      change (p c >>= fun x => f x.1 x.2) = _
      rw [read]
      rfl
    rw [goes]
    exact second x.1 x.2

theorem plain {p : Parser α} (plain : Plain p) : Unplaces id p p := by
  induction plain with
  | pure a => exact .pure rfl
  | bind first second ih ihs => exact ih.bind ihs
  | fail cause => exact .fail
  | peek | peekNext | advance =>
    rintro ⟨rest, last, next⟩
    rcases rest with _ | ⟨t, _ | ⟨t', rest⟩⟩ <;> rfl

theorem past {p : Parser α} {f g : α → Parser β} [plain : Plain p]
    (second : ∀ a, Unplaces v (f a) (g a)) : Unplaces v (p >>= f) (p >>= g) :=
  (Unplaces.plain plain).bind second

theorem here {f g : Span → Parser β} (second : ∀ s, Unplaces v (f s) (g .start)) :
    Unplaces v (Parser.here >>= f) (Parser.here >>= g) := by
  refine bind (u := fun _ => .start) (fun c => ?_) second
  have placed : Parser.here c.unplaced = .ok (c.unplaced.here, c.unplaced) := rfl
  rw [placed, hereUnplaced]
  rfl

theorem mark {s : Span} {f g : Mark → Parser β}
    (second : ∀ m, Unplaces v (f m) (g m.unplaced)) :
    Unplaces v (Parser.mark s >>= f) (Parser.mark .start >>= g) :=
  bind (u := Mark.unplaced) (fun _ => rfl) second

theorem map {p q : Parser α} {f g : α → β} (first : Unplaces u p q)
    (same : ∀ a, g (u a) = v (f a)) : Unplaces v (f <$> p) (g <$> q) := by
  change Unplaces v (p >>= fun a => Pure.pure (f a)) (q >>= fun a => Pure.pure (g a))
  exact first.bind fun a => pure (same a)

theorem ite {c : Prop} [Decidable c] {p q p' q' : Parser α} (yes : Unplaces u p p')
    (no : Unplaces u q q') : Unplaces u (if c then p else q) (if c then p' else q') := by
  split
  · exact yes
  · exact no

end Unplaces

structure UnplacesWithin (fuel : Nat) : Prop where
  statement : Unplaces Stmt.unplaced (statement fuel) (statement fuel)
  initializer : Unplaces optionalUnplaced (initializer fuel) (initializer fuel)
  signature : Unplaces (fun s => (paramsUnplaced s.1, s.2)) (signature fuel) (signature fuel)
  parameters : Unplaces paramsUnplaced (parameters fuel) (parameters fuel)
  ifElse : Unplaces Stmt.unplaced (ifElse fuel) (ifElse fuel)
  block : Unplaces Block.unplaced (block fuel) (block fuel)
  blockBody : Unplaces stmtsUnplaced (blockBody fuel) (blockBody fuel)
  expression : Unplaces Expr.unplaced (expression fuel) (expression fuel)
  assignment : Unplaces Expr.unplaced (assignment fuel) (assignment fuel)
  binary (level : Nat) : Unplaces Expr.unplaced (binary level fuel) (binary level fuel)
  binaryRest (level : Nat) (left : Expr) : Unplaces Expr.unplaced (binaryRest level left fuel)
    (binaryRest level left.unplaced fuel)
  power : Unplaces Expr.unplaced (power fuel) (power fuel)
  unary : Unplaces Expr.unplaced (unary fuel) (unary fuel)
  suffixes (e : Expr) : Unplaces Expr.unplaced (suffixes e fuel) (suffixes e.unplaced fuel)
  arguments : Unplaces argsUnplaced (arguments fuel) (arguments fuel)
  primary : Unplaces Expr.unplaced (primary fuel) (primary fuel)
  properties : Unplaces propertiesUnplaced (properties fuel) (properties fuel)

namespace UnplacesWithin

theorem exhausted : UnplacesWithin 0 := by
  constructor <;> intros <;> exact .fail

variable {fuel : Nat} (within : UnplacesWithin fuel)
include within

theorem statementNext :
    Unplaces Stmt.unplaced (Parser.statement (fuel + 1)) (Parser.statement (fuel + 1)) := by
  rw [Parser.statement]
  refine .here fun span => .past fun token => .past fun behind => ?_
  split
  · refine .past fun _ => .past fun next => ?_
    extract_lets mutable go go'
    have goes (x : Unit) : Unplaces Stmt.unplaced (go x) (go' x) := by
      refine .past fun name => .past fun type => within.initializer.bind fun init => ?_
      refine .past fun _ => .mark fun m => .pure ?_
      rfl
    exact .ite (.past fun _ => goes ()) (goes ())
  · refine .past fun _ => .past fun _ => within.signature.bind fun s => ?_
    refine within.block.bind fun body => .mark fun m => .pure ?_
    rfl
  · refine .past fun _ => .past fun _ => .past fun _ => ?_
    have type := (typesPlain fuel).type
    refine .past fun _ => .past fun _ => .mark fun m => .pure ?_
    rfl
  · exact within.ifElse
  · refine .past fun _ => within.expression.bind fun condition => ?_
    refine within.block.bind fun body => .mark fun m => .pure ?_
    rfl
  · refine .past fun _ => .past fun bare => .ite ?_ ?_
    · refine .past fun _ => .mark fun m => .pure ?_
      rfl
    · refine within.expression.bind fun value => .past fun _ => .mark fun m => .pure ?_
      rfl
  · refine within.block.bind fun body => .pure ?_
    rfl
  · refine within.expression.bind fun value => .past fun _ => .mark fun m => .pure ?_
    rfl

theorem initializerNext :
    Unplaces optionalUnplaced (Parser.initializer (fuel + 1)) (Parser.initializer (fuel + 1)) := by
  rw [Parser.initializer]
  refine .past fun given => .ite ?_ (.pure ?_)
  · refine within.expression.bind fun value => .pure ?_
    rfl
  · rfl

theorem signatureNext : Unplaces (fun s => (paramsUnplaced s.1, s.2))
    (Parser.signature (fuel + 1)) (Parser.signature (fuel + 1)) := by
  rw [Parser.signature]
  refine .past fun _ => within.parameters.bind fun params => ?_
  exact .past fun _ => .past fun ret => .pure rfl

theorem parametersNext :
    Unplaces paramsUnplaced (Parser.parameters (fuel + 1)) (Parser.parameters (fuel + 1)) := by
  rw [Parser.parameters]
  refine .past fun closed => .ite (.pure ?_) ?_
  · rfl
  refine .past fun name => .past fun type => within.initializer.bind fun default => ?_
  refine .past fun more => .ite ?_ (.pure ?_)
  · refine within.parameters.bind fun rest => .pure ?_
    rfl
  · rfl

theorem ifElseNext :
    Unplaces Stmt.unplaced (Parser.ifElse (fuel + 1)) (Parser.ifElse (fuel + 1)) := by
  rw [Parser.ifElse]
  refine .here fun span => .past fun _ => within.expression.bind fun condition => ?_
  refine within.block.bind fun thenBranch => .past fun token => ?_
  extract_lets go go'
  have goes (other : Option Stmt) :
      Unplaces Stmt.unplaced (go other) (go' (other.map Stmt.unplaced)) := by
    refine .mark fun m => .pure ?_
    cases other with
    | none => rw [Stmt.unplaced, Option.map_none]
    | some other => rw [Stmt.unplaced, Option.map_some]
  have none : Unplaces (Option.map Stmt.unplaced) (Pure.pure none : Parser _) (Pure.pure none) :=
    .pure rfl
  refine .ite (.past fun _ => .past fun token => .ite ?_ ?_) (none.bind goes)
  · exact .bind (within.ifElse.map fun s => rfl) goes
  · refine .bind (within.block.map fun body => ?_) goes
    rw [Option.map_some, Stmt.unplaced]

theorem blockNext :
    Unplaces Block.unplaced (Parser.block (fuel + 1)) (Parser.block (fuel + 1)) := by
  rw [Parser.block]
  refine .here fun span => .past fun _ => within.blockBody.bind fun body => ?_
  refine .mark fun m => .pure ?_
  rfl

theorem blockBodyNext :
    Unplaces stmtsUnplaced (Parser.blockBody (fuel + 1)) (Parser.blockBody (fuel + 1)) := by
  rw [Parser.blockBody]
  refine .past fun token => ?_
  split
  · refine .past fun _ => .pure ?_
    rfl
  · exact .fail
  · exact .fail
  · refine within.statement.bind fun s => within.blockBody.bind fun rest => .pure ?_
    rfl

theorem expressionNext :
    Unplaces Expr.unplaced (Parser.expression (fuel + 1)) (Parser.expression (fuel + 1)) := by
  rw [Parser.expression]
  refine .past fun token => .past fun behind => ?_
  split
  · exact within.assignment
  · exact within.assignment
  · exact within.binary 0

theorem assignmentNext :
    Unplaces Expr.unplaced (Parser.assignment (fuel + 1)) (Parser.assignment (fuel + 1)) := by
  rw [Parser.assignment]
  refine .here fun span => .past fun target => .past fun token => ?_
  extract_lets go go'
  have goes (op : Option BinaryOp) : Unplaces Expr.unplaced (go op) (go' op) := by
    refine within.expression.bind fun value => .mark fun m => .pure ?_
    rfl
  split
  · split <;> exact .past goes
  · exact .past goes

theorem binaryNext (level : Nat) :
    Unplaces Expr.unplaced (Parser.binary level (fuel + 1)) (Parser.binary level (fuel + 1)) := by
  rw [Parser.binary]
  exact .ite within.power ((within.binary (level + 1)).bind (within.binaryRest level))

theorem binaryRestNext (level : Nat) (left : Expr) :
    Unplaces Expr.unplaced (Parser.binaryRest level left (fuel + 1))
      (Parser.binaryRest level left.unplaced (fuel + 1)) := by
  rw [Parser.binaryRest, Parser.binaryRest]
  refine .here fun span => .past fun token => ?_
  split
  · split
    · refine .ite (.past fun _ => ?_) (.pure rfl)
      refine (within.binary (level + 1)).bind fun right => .mark fun m => ?_
      rw [← Expr.unplaced]
      exact within.binaryRest level _
    · exact .pure rfl
  · exact .pure rfl

theorem powerNext :
    Unplaces Expr.unplaced (Parser.power (fuel + 1)) (Parser.power (fuel + 1)) := by
  rw [Parser.power]
  refine within.unary.bind fun base => .here fun span => .past fun more => .ite ?_ (.pure rfl)
  refine within.power.bind fun exponent => .mark fun m => .pure ?_
  rfl

theorem unaryNext :
    Unplaces Expr.unplaced (Parser.unary (fuel + 1)) (Parser.unary (fuel + 1)) := by
  have bare : Unplaces Expr.unplaced (Parser.primary fuel >>= fun e => Parser.suffixes e fuel)
      (Parser.primary fuel >>= fun e => Parser.suffixes e fuel) :=
    within.primary.bind within.suffixes
  rw [Parser.unary]
  refine .here fun span => .past fun token => ?_
  split
  · split
    · refine .past fun _ => within.unary.bind fun operand => .mark fun m => .pure ?_
      rfl
    · exact bare
  · exact bare

theorem suffixesNext (e : Expr) : Unplaces Expr.unplaced (Parser.suffixes e (fuel + 1))
    (Parser.suffixes e.unplaced (fuel + 1)) := by
  rw [Parser.suffixes, Parser.suffixes]
  refine .here fun span => .past fun token => ?_
  split
  · refine .past fun _ => within.arguments.bind fun args => .past fun _ => .mark fun m => ?_
    rw [← Expr.unplaced]
    exact within.suffixes _
  · refine .past fun _ => .past fun token => ?_
    extract_lets go go'
    have goes (key : PropertyName) : Unplaces Expr.unplaced (go key) (go' key) := by
      refine .mark fun m => ?_
      rw [← Key.unplaced, ← Expr.unplaced]
      exact within.suffixes _
    split <;> exact .past goes
  · refine .past fun _ => within.expression.bind fun key => .past fun _ => .mark fun m => ?_
    rw [← Key.unplaced, ← Expr.unplaced]
    exact within.suffixes _
  · split
    · cases e with
      | ident v name =>
        rw [Expr.unplaced]
        refine .past fun _ => .mark fun m => ?_
        rw [← Expr.unplaced]
        exact within.suffixes _
      | _ =>
        rw [Expr.unplaced]
        exact .fail
    · exact .pure rfl
  · exact .pure rfl

theorem argumentsNext :
    Unplaces argsUnplaced (Parser.arguments (fuel + 1)) (Parser.arguments (fuel + 1)) := by
  rw [Parser.arguments]
  refine .past fun closed => .ite (.pure ?_) (.past fun token => .past fun behind => ?_)
  · rfl
  extract_lets go
  have goes (name : Option String) : Unplaces argsUnplaced (go name) (go name) := by
    refine within.expression.bind fun value => .past fun more => .ite ?_ (.pure ?_)
    · refine within.arguments.bind fun rest => .pure ?_
      rfl
    · rfl
  split
  · exact .past fun _ => .past fun _ => .past goes
  · exact .past goes

theorem primaryNext :
    Unplaces Expr.unplaced (Parser.primary (fuel + 1)) (Parser.primary (fuel + 1)) := by
  rw [Parser.primary]
  refine .here fun span => .past fun token => ?_
  split
  · exact .fail
  · refine .past fun _ => .mark fun m => .pure ?_
    rfl
  · refine .past fun _ => within.expression.bind fun inner => .past fun _ => ?_
    refine .mark fun m => .pure ?_
    rfl
  · refine .past fun _ => within.signature.bind fun s => within.block.bind fun body => ?_
    refine .mark fun m => .pure ?_
    rfl
  · refine .past fun _ => within.properties.bind fun properties => .past fun _ => ?_
    refine .mark fun m => .pure ?_
    rfl
  · split
    · refine .past fun _ => .mark fun m => .pure ?_
      rfl
    · exact .fail

theorem propertiesNext :
    Unplaces propertiesUnplaced (Parser.properties (fuel + 1)) (Parser.properties (fuel + 1)) := by
  change Unplaces _ (_ >>= _) (_ >>= _)
  refine .past fun closed => .ite (.pure ?_) (.past fun token => ?_)
  · rfl
  extract_lets go
  have goes (key : Key) : Unplaces propertiesUnplaced (go key) (go key.unplaced) := by
    refine .past fun _ => within.expression.bind fun value => .past fun more => .ite ?_ (.pure ?_)
    · refine within.properties.bind fun rest => .pure ?_
      rfl
    · rfl
  have known (name : PropertyName) :
      Unplaces Key.unplaced (Pure.pure (.known name) : Parser _) (Pure.pure (.known name)) := by
    refine .pure ?_
    rfl
  have refused : Unplaces propertiesUnplaced (.fail .missingKey >>= go)
      (.fail .missingKey >>= go) := .bind .fail goes
  rcases token with _ | token
  · exact refused
  cases token with
  | ident | string | integer => exact (known _).bind goes
  | symbol symbol =>
    cases symbol with
    | lBracket =>
      refine within.expression.bind fun key => .past fun _ => ?_
      refine .bind (u := Key.unplaced) (.pure ?_) goes
      rfl
    | _ => exact refused
  | _ => exact refused

end UnplacesWithin

theorem unplacesWithin (fuel : Nat) : UnplacesWithin fuel := by
  induction fuel with
  | zero => exact .exhausted
  | succ fuel within =>
    exact
      { statement := within.statementNext
        initializer := within.initializerNext
        signature := within.signatureNext
        parameters := within.parametersNext
        ifElse := within.ifElseNext
        block := within.blockNext
        blockBody := within.blockBodyNext
        expression := within.expressionNext
        assignment := within.assignmentNext
        binary := within.binaryNext
        binaryRest := within.binaryRestNext
        power := within.powerNext
        unary := within.unaryNext
        suffixes := within.suffixesNext
        arguments := within.argumentsNext
        primary := within.primaryNext
        properties := within.propertiesNext }

theorem statementsUnplace (fuel : Nat) :
    Unplaces stmtsUnplaced (statements fuel) (statements fuel) := by
  induction fuel with
  | zero => exact .fail
  | succ fuel ih =>
    have none : Unplaces stmtsUnplaced (Pure.pure [] : Parser _) (Pure.pure []) := by
      refine .pure ?_
      rfl
    rw [statements]
    refine .past fun token => ?_
    split
    · exact none
    · exact none
    · refine (unplacesWithin fuel).statement.bind fun s => ih.bind fun rest => .pure ?_
      rfl

theorem programUnplaces : Unplaces stmtsUnplaced program program := by
  intro c
  have counted : bound c.unplaced.rest = bound c.rest := by
    rw [bound, Cursor.unplaced, List.length_map, bound]
  change statements (bound c.unplaced.rest) c.unplaced = _
  rw [counted]
  exact statementsUnplace _ c

theorem startUnplaced (tokens : List Spanned) :
    start (tokens.map Spanned.unplaced) = (start tokens).unplaced := by
  rw [start, List.filter_map]
  rfl

end Parser

def unplacedParse (parsed : Except ParseError Program) : Except ParseCause Program :=
  (parsed.mapError (·.cause)).map stmtsUnplaced

theorem parseUnplaced (tokens : List Spanned) :
    (parse (tokens.map Spanned.unplaced)).mapError (·.cause) = unplacedParse (parse tokens) := by
  rw [unplacedParse, parse, parse, Parser.startUnplaced, Parser.programUnplaces]
  cases Parser.program (Parser.start tokens) <;> rfl

theorem placesIgnored {tokens tokens' : List Spanned}
    (same : tokens.map (·.token) = tokens'.map (·.token)) :
    unplacedParse (parse tokens) = unplacedParse (parse tokens') := by
  have alike : tokens.map Spanned.unplaced = tokens'.map Spanned.unplaced := by
    have placed := congrArg (List.map fun token => Spanned.mk token .start) same
    rwa [List.map_map, List.map_map] at placed
  rw [← parseUnplaced, ← parseUnplaced, alike]

end Quill
