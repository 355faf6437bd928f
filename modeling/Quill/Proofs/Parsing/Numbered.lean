import Quill.Proofs.Parsing.Parsed
import Quill.Syntax.Arena

/-! Node numbers. The nodes of a parsed program have the numbers from zero on, children before
parents: the parser gives each node the next number when all its parts have theirs. -/
namespace Quill

structure Numbered (nodes : List Node) (a b : Nat) : Prop where
  numbers : nodes.map (·.mark.id) = List.range' a nodes.length
  upTo : a + nodes.length = b

namespace Numbered

variable {xs ys : List Node} {a b c : Nat}

theorem nil : Numbered [] a a := ⟨rfl, rfl⟩

theorem append (first : Numbered xs a b) (second : Numbered ys b c) : Numbered (xs ++ ys) a c := by
  obtain ⟨numbers, rfl⟩ := first
  obtain ⟨numbers', rfl⟩ := second
  refine ⟨?_, by rw [List.length_append, Nat.add_assoc]⟩
  rw [List.map_append, numbers, numbers', List.length_append, List.range'_append_1]

theorem node {span : Span} {kind : NodeKind} (parts : Numbered xs a b) :
    Numbered (xs ++ [⟨⟨b, span⟩, kind⟩]) a (b + 1) :=
  parts.append ⟨rfl, rfl⟩

theorem one {span : Span} {kind : NodeKind} : Numbered [⟨⟨a, span⟩, kind⟩] a (a + 1) := nil.node

end Numbered

namespace Parser

def Numbers {α : Type} (p : Parser α) (n : Nat) (Q : α → Nat → Prop) : Prop :=
  ∀ c a c', c.next = n → p c = .ok (a, c') → Q a c'.next

namespace Numbers

variable {α β : Type} {n : Nat} {Q : α → Nat → Prop} {R : β → Nat → Prop}

theorem pure {a : α} (given : Q a n) : Numbers (Pure.pure a) n Q := by
  rintro c _ _ rfl ⟨⟩
  exact given

theorem fail {cause : ParseCause} : Numbers (Parser.fail cause) n Q := by
  rintro c a c' - ⟨⟩

theorem bind {p : Parser α} {f : α → Parser β} (first : Numbers p n Q)
    (second : ∀ a k, Q a k → Numbers (f a) k R) : Numbers (p >>= f) n R := by
  intro c b c' here parsed
  obtain ⟨a, c₁, before, after⟩ := bindParsed parsed
  exact second a c₁.next (first c a c₁ here before) c₁ b c' rfl after

theorem past {p : Parser α} {f : α → Parser β} [still : Still p]
    (second : ∀ a, Numbers (f a) n R) : Numbers (p >>= f) n R := by
  refine bind (Q := fun _ k => k = n) (fun c a c' here parsed => (still.keeps parsed).2.trans here) ?_
  rintro a _ rfl
  exact second a

theorem mark {span : Span} {f : Mark → Parser β} (second : Numbers (f ⟨n, span⟩) (n + 1) R) :
    Numbers (Parser.mark span >>= f) n R := by
  refine bind (Q := fun m k => m = ⟨n, span⟩ ∧ k = n + 1) ?_ ?_
  · rintro c _ _ rfl ⟨⟩
    exact ⟨rfl, rfl⟩
  · rintro _ _ ⟨rfl, rfl⟩
    exact second

theorem map {p : Parser α} {f : α → β} (first : Numbers p n Q) (keeps : ∀ a k, Q a k → R (f a) k) :
    Numbers (f <$> p) n R :=
  first.bind fun a k given => .pure (keeps a k given)

theorem ite {c : Prop} [Decidable c] {p q : Parser α} (yes : Numbers p n Q) (no : Numbers q n Q) :
    Numbers (if c then p else q) n Q := by
  split
  · exact yes
  · exact no

end Numbers

def optionalNodes (e : Option Expr) : List Node := (e.map Expr.nodes).getD []

structure NumberedWithin (fuel : Nat) : Prop where
  statement (n : Nat) : Numbers (statement fuel) n fun s => Numbered s.nodes n
  initializer (n : Nat) : Numbers (initializer fuel) n fun init => Numbered (optionalNodes init) n
  signature (n : Nat) : Numbers (signature fuel) n fun s => Numbered (paramNodes s.1) n
  parameters (n : Nat) : Numbers (parameters fuel) n fun params => Numbered (paramNodes params) n
  ifElse (n : Nat) : Numbers (ifElse fuel) n fun s => Numbered s.nodes n
  block (n : Nat) : Numbers (block fuel) n fun body => Numbered body.nodes n
  blockBody (n : Nat) : Numbers (blockBody fuel) n fun body => Numbered (stmtNodes body) n
  expression (n : Nat) : Numbers (expression fuel) n fun e => Numbered e.nodes n
  assignment (n : Nat) : Numbers (assignment fuel) n fun e => Numbered e.nodes n
  binary (level n : Nat) : Numbers (binary level fuel) n fun e => Numbered e.nodes n
  binaryRest (level : Nat) {left : Expr} {a n : Nat} (lefts : Numbered left.nodes a n) :
    Numbers (binaryRest level left fuel) n fun e => Numbered e.nodes a
  power (n : Nat) : Numbers (power fuel) n fun e => Numbered e.nodes n
  unary (n : Nat) : Numbers (unary fuel) n fun e => Numbered e.nodes n
  suffixes {e : Expr} {a n : Nat} (inner : Numbered e.nodes a n) :
    Numbers (suffixes e fuel) n fun e => Numbered e.nodes a
  arguments (n : Nat) : Numbers (arguments fuel) n fun args => Numbered (argNodes args) n
  primary (n : Nat) : Numbers (primary fuel) n fun e => Numbered e.nodes n
  properties (n : Nat) : Numbers (properties fuel) n fun properties =>
    Numbered (propertyNodes properties) n

namespace NumberedWithin

theorem exhausted : NumberedWithin 0 := by
  constructor <;> intros <;> exact .fail

variable {fuel : Nat} (within : NumberedWithin fuel)
include within

theorem statementNext (n : Nat) :
    Numbers (Parser.statement (fuel + 1)) n fun s => Numbered s.nodes n := by
  rw [Parser.statement]
  refine .past fun span => .past fun token => .past fun behind => ?_
  split
  · refine .past fun _ => .past fun next => ?_
    extract_lets mutable go
    have goes (x : Unit) : Numbers (go x) n fun s => Numbered s.nodes n := by
      refine .past fun name => .past fun type => (within.initializer n).bind fun init k inits => ?_
      refine .past fun _ => .mark (.pure ?_)
      cases init with
      | none =>
        exact inits.node
      | some value =>
        exact inits.node
    exact .ite (.past fun _ => goes ()) (goes ())
  · refine .past fun _ => .past fun _ => (within.signature n).bind fun s k params => ?_
    refine (within.block k).bind fun body l bodies => .mark (.pure ?_)
    exact (params.append bodies).node
  · refine .past fun _ => .past fun _ => .past fun _ => ?_
    have type := (typesPlain fuel).type
    refine .past fun _ => .past fun _ => .mark (.pure ?_)
    exact .one
  · exact within.ifElse n
  · refine .past fun _ => (within.expression n).bind fun condition k conditions => ?_
    refine (within.block k).bind fun body l bodies => .mark (.pure ?_)
    exact (conditions.append bodies).node
  · refine .past fun _ => .past fun bare => .ite ?_ ?_
    · refine .past fun _ => .mark (.pure ?_)
      exact .one
    · refine (within.expression n).bind fun value k values => .past fun _ => .mark (.pure ?_)
      exact values.node
  · refine (within.block n).bind fun body k bodies => .pure ?_
    exact bodies
  · refine (within.expression n).bind fun value k values => .past fun _ => .mark (.pure ?_)
    exact values.node

theorem initializerNext (n : Nat) :
    Numbers (Parser.initializer (fuel + 1)) n fun init => Numbered (optionalNodes init) n := by
  rw [Parser.initializer]
  refine .past fun given => .ite ?_ (.pure .nil)
  exact (within.expression n).bind fun value k values => .pure values

theorem signatureNext (n : Nat) :
    Numbers (Parser.signature (fuel + 1)) n fun s => Numbered (paramNodes s.1) n := by
  rw [Parser.signature]
  refine .past fun _ => (within.parameters n).bind fun params k given => ?_
  exact .past fun _ => .past fun ret => .pure given

theorem parametersNext (n : Nat) :
    Numbers (Parser.parameters (fuel + 1)) n fun params => Numbered (paramNodes params) n := by
  rw [Parser.parameters]
  refine .past fun closed => .ite (.pure ?_) ?_
  · exact .nil
  refine .past fun name => .past fun type => (within.initializer n).bind fun default k defaults => ?_
  have first (rest : List Param) {l : Nat} (others : Numbered (paramNodes rest) k l) :
      Numbered (paramNodes (.mk name type default :: rest)) n l := by
    cases default with
    | none =>
      exact defaults.append others
    | some value =>
      exact defaults.append others
  refine .past fun more => .ite ?_ (.pure (first [] ?_))
  · exact (within.parameters k).bind fun rest l others => .pure (first rest others)
  · exact .nil

theorem ifElseNext (n : Nat) :
    Numbers (Parser.ifElse (fuel + 1)) n fun s => Numbered s.nodes n := by
  rw [Parser.ifElse]
  refine .past fun span => .past fun _ => (within.expression n).bind fun condition k conditions => ?_
  refine (within.block k).bind fun thenBranch l thens => .past fun token => ?_
  extract_lets go
  have goes (other : Option Stmt) (r : Nat)
      (elses : Numbered ((other.map Stmt.nodes).getD []) l r) :
      Numbers (go other) r fun s => Numbered s.nodes n := by
    refine .mark (.pure ?_)
    cases other with
    | none =>
      cases elses.upTo
      exact (conditions.append thens).node
    | some other =>
      exact ((conditions.append thens).append elses).node
  refine .ite (.past fun _ => .past fun token => .ite ?_ ?_)
    (.bind (.pure (Q := fun o r => Numbered ((o.map Stmt.nodes).getD []) l r) .nil) goes)
  · exact .bind ((within.ifElse l).map fun s r other => other) goes
  · refine .bind ((within.block l).map fun body r other => ?_) goes
    rw [Option.map_some, Option.getD_some, Stmt.nodes]
    exact other

theorem blockNext (n : Nat) :
    Numbers (Parser.block (fuel + 1)) n fun body => Numbered body.nodes n := by
  rw [Parser.block]
  refine .past fun span => .past fun _ => (within.blockBody n).bind fun body k bodies => ?_
  refine .mark (.pure ?_)
  exact bodies.node

theorem blockBodyNext (n : Nat) :
    Numbers (Parser.blockBody (fuel + 1)) n fun body => Numbered (stmtNodes body) n := by
  rw [Parser.blockBody]
  refine .past fun token => ?_
  split
  · refine .past fun _ => .pure ?_
    exact .nil
  · exact .fail
  · exact .fail
  · refine (within.statement n).bind fun s k first => ?_
    refine (within.blockBody k).bind fun rest l others => .pure ?_
    exact first.append others

theorem expressionNext (n : Nat) :
    Numbers (Parser.expression (fuel + 1)) n fun e => Numbered e.nodes n := by
  rw [Parser.expression]
  refine .past fun token => .past fun behind => ?_
  split
  · exact within.assignment n
  · exact within.assignment n
  · exact within.binary 0 n

theorem assignmentNext (n : Nat) :
    Numbers (Parser.assignment (fuel + 1)) n fun e => Numbered e.nodes n := by
  rw [Parser.assignment]
  refine .past fun span => .past fun target => .past fun token => ?_
  extract_lets go
  have goes (op : Option BinaryOp) : Numbers (go op) n fun e => Numbered e.nodes n := by
    refine (within.expression n).bind fun value k values => .mark (.pure ?_)
    exact values.node
  split
  · split
    · exact .past goes
    · exact .past goes
  · exact .past goes

theorem binaryNext (level n : Nat) :
    Numbers (Parser.binary level (fuel + 1)) n fun e => Numbered e.nodes n := by
  rw [Parser.binary]
  refine .ite (within.power n) ?_
  exact (within.binary (level + 1) n).bind fun left k lefts => within.binaryRest level lefts

theorem binaryRestNext (level : Nat) {left : Expr} {a n : Nat} (lefts : Numbered left.nodes a n) :
    Numbers (Parser.binaryRest level left (fuel + 1)) n fun e => Numbered e.nodes a := by
  rw [Parser.binaryRest]
  refine .past fun span => .past fun token => ?_
  split
  · split
    · refine .ite (.past fun _ => ?_) (.pure lefts)
      refine (within.binary (level + 1) n).bind fun right k rights => .mark ?_
      refine within.binaryRest level ?_
      exact (lefts.append rights).node
    · exact .pure lefts
  · exact .pure lefts

theorem powerNext (n : Nat) :
    Numbers (Parser.power (fuel + 1)) n fun e => Numbered e.nodes n := by
  rw [Parser.power]
  refine (within.unary n).bind fun base k bases => .past fun span => .past fun more => ?_
  refine .ite ?_ (.pure bases)
  refine (within.power k).bind fun exponent l exponents => .mark (.pure ?_)
  exact (bases.append exponents).node

theorem unaryNext (n : Nat) :
    Numbers (Parser.unary (fuel + 1)) n fun e => Numbered e.nodes n := by
  have plain : Numbers (Parser.primary fuel >>= fun e => Parser.suffixes e fuel) n
      fun e => Numbered e.nodes n :=
    (within.primary n).bind fun e k inner => within.suffixes inner
  rw [Parser.unary]
  refine .past fun span => .past fun token => ?_
  split
  · split
    · refine .past fun _ => (within.unary n).bind fun operand k operands => .mark (.pure ?_)
      exact operands.node
    · exact plain
  · exact plain

theorem suffixesNext {e : Expr} {a n : Nat} (inner : Numbered e.nodes a n) :
    Numbers (Parser.suffixes e (fuel + 1)) n fun e => Numbered e.nodes a := by
  rw [Parser.suffixes]
  refine .past fun span => .past fun token => ?_
  split
  · refine .past fun _ => (within.arguments n).bind fun args k given => .past fun _ => .mark ?_
    refine within.suffixes ?_
    exact (inner.append given).node
  · refine .past fun _ => .past fun token => ?_
    extract_lets go
    have goes (key : PropertyName) : Numbers (go key) n fun e => Numbered e.nodes a := by
      refine .mark (within.suffixes ?_)
      rw [Expr.nodes, Key.nodes, List.append_nil]
      exact inner.node
    split <;> exact .past goes
  · refine .past fun _ => (within.expression n).bind fun key k keys => .past fun _ => .mark ?_
    refine within.suffixes ?_
    rw [Expr.nodes, Key.nodes]
    exact (inner.append keys).node
  · split
    · split
      · refine .past fun _ => .mark (within.suffixes ?_)
        rw [Expr.nodes] at inner
        exact inner.node
      · exact .fail
    · exact .pure inner
  · exact .pure inner

theorem argumentsNext (n : Nat) :
    Numbers (Parser.arguments (fuel + 1)) n fun args => Numbered (argNodes args) n := by
  rw [Parser.arguments]
  refine .past fun closed => .ite (.pure ?_) (.past fun token => .past fun behind => ?_)
  · exact .nil
  extract_lets go
  have goes (name : Option String) : Numbers (go name) n fun args => Numbered (argNodes args) n := by
    refine (within.expression n).bind fun value k values => .past fun more => .ite ?_ (.pure ?_)
    · refine (within.arguments k).bind fun rest l others => .pure ?_
      exact values.append others
    · rw [argNodes, argNodes, List.append_nil]
      exact values
  split
  · exact .past fun _ => .past fun _ => .past goes
  · exact .past goes

theorem primaryNext (n : Nat) :
    Numbers (Parser.primary (fuel + 1)) n fun e => Numbered e.nodes n := by
  rw [Parser.primary]
  refine .past fun span => .past fun token => ?_
  split
  · exact .fail
  · refine .past fun _ => .mark (.pure ?_)
    exact .one
  · refine .past fun _ => (within.expression n).bind fun inner k inners => .past fun _ => ?_
    refine .mark (.pure ?_)
    exact inners.node
  · refine .past fun _ => (within.signature n).bind fun s k params => ?_
    refine (within.block k).bind fun body l bodies => .mark (.pure ?_)
    exact (params.append bodies).node
  · refine .past fun _ => (within.properties n).bind fun properties k listed => .past fun _ => ?_
    refine .mark (.pure ?_)
    exact listed.node
  · split
    · refine .past fun _ => .mark (.pure ?_)
      exact .one
    · exact .fail

theorem propertiesNext (n : Nat) : Numbers (Parser.properties (fuel + 1)) n fun properties =>
    Numbered (propertyNodes properties) n := by
  change Numbers (_ >>= _) n _
  refine .past fun closed => .ite (.pure ?_) (.past fun token => ?_)
  · exact .nil
  extract_lets go
  have goes (key : Key) (k : Nat) (keys : Numbered key.nodes n k) :
      Numbers (go key) k fun properties => Numbered (propertyNodes properties) n := by
    refine .past fun _ => (within.expression k).bind fun value l values => .past fun more => ?_
    refine .ite ?_ (.pure ?_)
    · refine (within.properties l).bind fun rest r others => .pure ?_
      exact (keys.append values).append others
    · rw [propertyNodes, propertyNodes, List.append_nil]
      exact keys.append values
  have known (name : PropertyName) : Numbered (Key.known name).nodes n n := by
    exact .nil
  have refused : Numbers (.fail .missingKey >>= go) n fun properties =>
      Numbered (propertyNodes properties) n := .bind .fail goes
  rcases token with _ | token
  · exact refused
  cases token with
  | ident | string | integer => exact .bind (.pure (known _)) goes
  | symbol symbol =>
    cases symbol with
    | lBracket =>
      refine (within.expression n).bind fun key k keys => .past fun _ => .bind (.pure ?_) goes
      exact keys
    | _ => exact refused
  | _ => exact refused

end NumberedWithin

theorem numberedWithin (fuel : Nat) : NumberedWithin fuel := by
  induction fuel with
  | zero => exact .exhausted
  | succ fuel within =>
    exact
      { statement := within.statementNext
        initializer := within.initializerNext
        signature := within.signatureNext
        parameters := within.parametersNext
        ifElse := within.ifElseNext
        block := within.blockNext
        blockBody := within.blockBodyNext
        expression := within.expressionNext
        assignment := within.assignmentNext
        binary := within.binaryNext
        binaryRest := within.binaryRestNext
        power := within.powerNext
        unary := within.unaryNext
        suffixes := within.suffixesNext
        arguments := within.argumentsNext
        primary := within.primaryNext
        properties := within.propertiesNext }

theorem statementsNumbered (fuel n : Nat) :
    Numbers (statements fuel) n fun body => Numbered (stmtNodes body) n := by
  induction fuel generalizing n with
  | zero => exact .fail
  | succ fuel ih =>
    rw [statements]
    refine .past fun token => ?_
    have none : Numbered (stmtNodes []) n n := by
      exact .nil
    split
    · exact .pure none
    · exact .pure none
    · refine ((numberedWithin fuel).statement n).bind fun s k first => ?_
      refine (ih k).bind fun rest l others => .pure ?_
      exact first.append others

end Parser

theorem parsedNumbered {tokens : List Spanned} {program : Program}
    (parsed : parse tokens = .ok program) :
    program.nodes.map (·.mark.id) = List.range program.nodes.length := by
  unfold parse at parsed
  cases read : Parser.program (Parser.start tokens) with
  | error e => rw [read] at parsed; cases parsed
  | ok x =>
    rw [read] at parsed
    cases parsed
    have numbered := Parser.statementsNumbered _ 0 _ _ _ rfl read
    exact numbered.numbers.trans List.range_eq_range'.symm

theorem parsedDistinct {source : String} {program : Program}
    (parsed : parseSource source = .ok program) : (program.nodes.map (·.mark.id)).Nodup := by
  obtain ⟨tokens, -, parsed⟩ := parsedSource parsed
  rw [parsedNumbered parsed]
  exact List.nodup_range

end Quill
