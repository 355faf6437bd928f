import Quill.Compile
import Quill.Proofs.Parsing.Plain
import Quill.Proofs.Parsing.Written

/-! The parser writes programs. Rule by rule, from tokens that are no floats that are not-a-number
come trees without such literals, with a block or a further `if` behind every `else`. -/
namespace Quill

def Supplied (L : Literal → Prop) (tokens : List Spanned) : Prop :=
  ∀ t ∈ tokens, ∀ v, Parser.literal? t.token = some v → L v

namespace Parser

theorem bindParsed {α β : Type} {p : Parser α} {f : α → Parser β} {c c' : Cursor} {b : β}
    (parsed : (p >>= f) c = .ok (b, c')) : ∃ a c₁, p c = .ok (a, c₁) ∧ f a c₁ = .ok (b, c') := by
  change (p c).bind (fun x => f x.1 x.2) = _ at parsed
  cases here : p c with
  | error e => rw [here] at parsed; cases parsed
  | ok x =>
    rw [here] at parsed
    exact ⟨x.1, x.2, rfl, parsed⟩

class Still {α : Type} (p : Parser α) : Prop where
  keeps {c : Cursor} {a : α} {c' : Cursor} (parsed : p c = .ok (a, c')) :
    c'.rest ⊆ c.rest ∧ c'.next = c.next

instance Still.bind {α β : Type} {p : Parser α} {f : α → Parser β} [first : Still p]
    [second : ∀ a, Still (f a)] : Still (p >>= f) := by
  refine ⟨fun parsed => ?_⟩
  obtain ⟨a, c₁, here, there⟩ := bindParsed parsed
  obtain ⟨among, same⟩ := first.keeps here
  obtain ⟨among', same'⟩ := (second a).keeps there
  exact ⟨List.Subset.trans among' among, same'.trans same⟩

instance {α : Type} {p : Parser α} [plain : Plain p] : Still p := by
  induction plain with
  | pure a => exact ⟨by rintro c _ _ ⟨⟩; exact ⟨List.Subset.refl _, rfl⟩⟩
  | bind ih ih' => exact .bind
  | fail cause => exact ⟨by rintro c a c' ⟨⟩⟩
  | peek | peekNext => exact ⟨by rintro c _ _ ⟨⟩; exact ⟨List.Subset.refl _, rfl⟩⟩
  | advance =>
    refine ⟨fun {c a c'} parsed => ?_⟩
    unfold advance at parsed
    split at parsed
    · cases parsed
      exact ⟨List.Subset.refl _, rfl⟩
    · rename_i same
      cases parsed
      rw [same]
      exact ⟨List.subset_cons_self _ _, rfl⟩

instance : Still here := ⟨by rintro c _ _ ⟨⟩; exact ⟨List.Subset.refl _, rfl⟩⟩

class Shrinks {α : Type} (p : Parser α) : Prop where
  among {c : Cursor} {a : α} {c' : Cursor} (parsed : p c = .ok (a, c')) : c'.rest ⊆ c.rest

instance {α : Type} {p : Parser α} [still : Still p] : Shrinks p :=
  ⟨fun parsed => (still.keeps parsed).1⟩

instance {span : Span} : Shrinks (mark span) := ⟨by rintro c _ _ ⟨⟩; exact List.Subset.refl _⟩

def Gives {α : Type} (L : Literal → Prop) (p : Parser α) (Q : α → Prop) : Prop :=
  ∀ c a c', Supplied L c.rest → p c = .ok (a, c') → Supplied L c'.rest ∧ Q a

variable {L : Literal → Prop}

namespace Gives

variable {α β : Type} {Q : α → Prop} {R : β → Prop}

theorem pure {a : α} (given : Q a) : Gives L (Pure.pure a) Q := by
  rintro c _ _ supplied ⟨⟩
  exact ⟨supplied, given⟩

theorem fail {cause : ParseCause} : Gives L (Parser.fail cause) Q := by
  rintro c a c' - ⟨⟩

theorem bind {p : Parser α} {f : α → Parser β} (first : Gives L p Q)
    (second : ∀ a, Q a → Gives L (f a) R) : Gives L (p >>= f) R := by
  intro c b c' supplied parsed
  obtain ⟨a, c₁, here, there⟩ := bindParsed parsed
  obtain ⟨supplied, given⟩ := first c a c₁ supplied here
  exact second a given c₁ b c' supplied there

theorem past {p : Parser α} {f : α → Parser β} [shrinks : Shrinks p]
    (second : ∀ a, Gives L (f a) R) : Gives L (p >>= f) R :=
  bind (Q := fun _ => True)
    (fun _ _ _ supplied parsed => ⟨fun t held => supplied t (shrinks.among parsed held), trivial⟩)
    fun a _ => second a

theorem map {p : Parser α} {f : α → β} (first : Gives L p Q) (keeps : ∀ a, Q a → R (f a)) :
    Gives L (f <$> p) R :=
  first.bind fun a given => .pure (keeps a given)

theorem ite {c : Prop} [Decidable c] {p q : Parser α} (yes : Gives L p Q) (no : Gives L q Q) :
    Gives L (if c then p else q) Q := by
  split
  · exact yes
  · exact no

theorem imp {p : Parser α} {Q' : α → Prop} (gives : Gives L p Q) (weaker : ∀ a, Q a → Q' a) :
    Gives L p Q' :=
  fun c a c' supplied parsed => (gives c a c' supplied parsed).imp_right (weaker a)

end Gives

theorem peekGives :
    Gives L peek fun token => ∀ t ∈ token, ∀ v, literal? t = some v → L v := by
  rintro c _ _ supplied ⟨⟩
  refine ⟨supplied, fun t held => ?_⟩
  obtain ⟨s, first, rfl⟩ := Option.map_eq_some_iff.mp held
  exact supplied s (List.mem_of_head? first)

theorem advanceGives :
    Gives L advance fun token => ∀ t ∈ token, ∀ v, literal? t = some v → L v := by
  intro c a c' supplied parsed
  unfold advance at parsed
  split at parsed
  · cases parsed
    exact ⟨supplied, nofun⟩
  · rename_i same
    cases parsed
    rw [same] at supplied
    refine ⟨fun t held => supplied t (List.mem_cons_of_mem _ held), ?_⟩
    rintro _ ⟨⟩
    exact supplied _ List.mem_cons_self

structure TypesWritten (L : Literal → Prop) (fuel : Nat) : Prop where
  type : Gives L (type fuel) (TypeExpr.Written L)
  intersectionType : Gives L (intersectionType fuel) (TypeExpr.Written L)
  typesAfter (sep : Symbol) : Gives L (typesAfter sep fuel) (typesWritten L)
  arrayType : Gives L (arrayType fuel) (TypeExpr.Written L)
  arraySuffix {element : TypeExpr} (written : element.Written L) :
    Gives L (arraySuffix element fuel) (TypeExpr.Written L)
  primaryType : Gives L (primaryType fuel) (TypeExpr.Written L)
  typeArgs : Gives L (typeArgs fuel) (typesWritten L)
  typeParams : Gives L (typeParams fuel) (typeParamsWritten L)
  typeParam : Gives L (typeParam fuel) fun p => typeParamsWritten L [p]
  typeMembers : Gives L (typeMembers fuel) (typeMembersWritten L)
  typeMember : Gives L (typeMember fuel) fun m => typeMembersWritten L [m]

namespace TypesWritten

theorem exhausted : TypesWritten L 0 := by
  constructor <;> intros <;> exact .fail

variable {fuel : Nat} (within : TypesWritten L fuel)
include within

theorem typeNext : Gives L (Parser.type (fuel + 1)) (TypeExpr.Written L) := by
  rw [Parser.type]
  refine within.intersectionType.bind fun first written => ?_
  refine (within.typesAfter .pipe).bind fun more others => ?_
  split
  · exact .pure written
  · exact .pure ⟨written, others⟩

theorem intersectionTypeNext :
    Gives L (Parser.intersectionType (fuel + 1)) (TypeExpr.Written L) := by
  rw [Parser.intersectionType]
  refine within.arrayType.bind fun first written => ?_
  refine (within.typesAfter .amp).bind fun more others => ?_
  split
  · exact .pure written
  · exact .pure ⟨written, others⟩

theorem typesAfterNext (sep : Symbol) :
    Gives L (Parser.typesAfter sep (fuel + 1)) (typesWritten L) := by
  rw [Parser.typesAfter]
  refine .past fun more => .ite ?_ (.pure trivial)
  extract_lets go
  have goes (member : TypeExpr) (written : member.Written L) :
      Gives L (go member) (typesWritten L) :=
    (within.typesAfter sep).bind fun rest others => .pure ⟨written, others⟩
  exact .ite (within.intersectionType.bind goes) (within.arrayType.bind goes)

theorem arrayTypeNext : Gives L (Parser.arrayType (fuel + 1)) (TypeExpr.Written L) := by
  rw [Parser.arrayType]
  exact within.primaryType.bind fun element written => within.arraySuffix written

theorem arraySuffixNext {element : TypeExpr} (written : element.Written L) :
    Gives L (Parser.arraySuffix element (fuel + 1)) (TypeExpr.Written L) := by
  rw [Parser.arraySuffix]
  refine .past fun opens => .past fun behind => .ite ?_ (.pure written)
  exact .past fun _ => .past fun _ => within.arraySuffix written

theorem primaryTypeNext : Gives L (Parser.primaryType (fuel + 1)) (TypeExpr.Written L) := by
  rw [Parser.primaryType]
  refine advanceGives.bind fun token literals => ?_
  split
  · exact .fail
  · refine .past fun more => .ite ?_ (.pure trivial)
    exact within.typeArgs.bind fun args written => .past fun _ => .pure written
  · exact .pure trivial
  · exact within.type.bind fun inner written => .past fun _ => .pure written
  · refine .past fun _ => within.typeParams.bind fun params written => .past fun _ => ?_
    refine .past fun more => .ite ?_ (.pure ⟨written, trivial⟩)
    exact within.type.bind fun ret returned => .pure ⟨written, returned⟩
  · exact within.typeMembers.bind fun members written => .past fun _ => .pure written
  · split
    · rename_i read
      exact .pure (literals _ rfl _ read)
    · exact .fail

theorem typeArgsNext : Gives L (Parser.typeArgs (fuel + 1)) (typesWritten L) := by
  rw [Parser.typeArgs]
  refine within.type.bind fun arg written => .past fun more => .ite ?_ (.pure ⟨written, trivial⟩)
  exact within.typeArgs.bind fun rest others => .pure ⟨written, others⟩

theorem typeParamsNext : Gives L (Parser.typeParams (fuel + 1)) (typeParamsWritten L) := by
  rw [Parser.typeParams]
  refine .past fun closed => .ite (.pure trivial) ?_
  refine within.typeParam.bind fun param written => .past fun more => .ite ?_ (.pure written)
  refine within.typeParams.bind fun rest others => .pure ?_
  obtain ⟨_, _, _⟩ := param
  exact ⟨written.1, others⟩

theorem typeParamNext : Gives L (Parser.typeParam (fuel + 1)) fun p => typeParamsWritten L [p] := by
  have typed (name : Option String) (isOptional : Bool) :
      Gives L (Parser.type fuel >>= fun t => Pure.pure (TypeParam.mk name t isOptional))
        fun p => typeParamsWritten L [p] :=
    within.type.bind fun t written => .pure ⟨written, trivial⟩
  rw [Parser.typeParam]
  refine .past fun token => .past fun behind => ?_
  split
  · exact .past fun _ => .past fun _ => typed _ _
  · exact .past fun _ => .past fun _ => .past fun _ => typed _ _
  · exact typed _ _

theorem typeMembersNext : Gives L (Parser.typeMembers (fuel + 1)) (typeMembersWritten L) := by
  rw [Parser.typeMembers]
  refine .past fun closed => .ite (.pure trivial) (within.typeMember.bind fun member written => ?_)
  have further : Gives L (Parser.typeMembers fuel >>= fun rest => Pure.pure (member :: rest))
      (typeMembersWritten L) := by
    refine within.typeMembers.bind fun rest others => .pure ?_
    cases member with
    | property => exact ⟨written.1, others⟩
    | index => exact ⟨written.1, written.2.1, others⟩
  exact .past fun _ => .ite further (.past fun _ => .ite further (.pure written))

theorem typeMemberNext :
    Gives L (Parser.typeMember (fuel + 1)) fun m => typeMembersWritten L [m] := by
  rw [Parser.typeMember]
  refine .past fun index => .ite ?_ (.past fun token => ?_)
  · refine within.type.bind fun key keys => .past fun _ => .past fun _ => ?_
    exact within.type.bind fun t written => .pure ⟨keys, written, trivial⟩
  · extract_lets mutable keyed go
    have keys (key : PropertyName) : Gives L (keyed key) fun m => typeMembersWritten L [m] :=
      .past fun _ => within.type.bind fun t written => .pure ⟨written, trivial⟩
    have goes (x : Unit) : Gives L (go x) fun m => typeMembersWritten L [m] := by
      refine .past fun token => ?_
      split <;> exact .past keys
    exact .ite (.past fun _ => goes ()) (goes ())

end TypesWritten

theorem typesWrittenWithin (fuel : Nat) : TypesWritten L fuel := by
  induction fuel with
  | zero => exact .exhausted
  | succ fuel within =>
    exact
      { type := within.typeNext
        intersectionType := within.intersectionTypeNext
        typesAfter := within.typesAfterNext
        arrayType := within.arrayTypeNext
        arraySuffix := within.arraySuffixNext
        primaryType := within.primaryTypeNext
        typeArgs := within.typeArgsNext
        typeParams := within.typeParamsNext
        typeParam := within.typeParamNext
        typeMembers := within.typeMembersNext
        typeMember := within.typeMemberNext }

theorem annotationGives (fuel : Nat) : Gives L ( annotation fuel) (typeWritten L) := by
  unfold annotation
  refine .past fun given => .ite ?_ (.pure nofun)
  refine (typesWrittenWithin fuel).type.bind fun t written => .pure ?_
  rintro _ ⟨⟩
  exact written

structure WrittenWithin (L : Literal → Prop) (fuel : Nat) : Prop where
  statement : Gives L (statement fuel) (Stmt.Written L)
  initializer : Gives L (initializer fuel) fun init => ∀ e, init = some e → e.Written L
  signature : Gives L (signature fuel) fun s => paramsWritten L s.1 ∧ typeWritten L s.2
  parameters : Gives L (parameters fuel) (paramsWritten L)
  ifElse : Gives L (ifElse fuel) fun s => s.isBranch ∧ s.Written L
  block : Gives L (block fuel) (Block.Written L)
  blockBody : Gives L (blockBody fuel) (stmtsWritten L)
  expression : Gives L (expression fuel) (Expr.Written L)
  assignment : Gives L (assignment fuel) (Expr.Written L)
  binary (level : Nat) : Gives L (binary level fuel) (Expr.Written L)
  binaryRest (level : Nat) {left : Expr} (written : left.Written L) :
    Gives L (binaryRest level left fuel) (Expr.Written L)
  power : Gives L (power fuel) (Expr.Written L)
  unary : Gives L (unary fuel) (Expr.Written L)
  suffixes {e : Expr} (written : e.Written L) : Gives L (suffixes e fuel) (Expr.Written L)
  arguments : Gives L (arguments fuel) (argsWritten L)
  primary : Gives L (primary fuel) (Expr.Written L)
  properties : Gives L (properties fuel) (propertiesWritten L)

namespace WrittenWithin

theorem exhausted : WrittenWithin L 0 := by
  constructor <;> intros <;> exact .fail

variable {fuel : Nat} (within : WrittenWithin L fuel)
include within

theorem statementNext : Gives L (Parser.statement (fuel + 1)) (Stmt.Written L) := by
  rw [Parser.statement]
  refine .past fun span => .past fun token => .past fun behind => ?_
  split
  · refine .past fun _ => .past fun next => ?_
    extract_lets mutable go
    have goes (x : Unit) : Gives L (go x) (Stmt.Written L) := by
      refine .past fun name => (annotationGives fuel).bind fun type typed => ?_
      refine within.initializer.bind fun init inits => .past fun _ => .past fun m => .pure ?_
      cases init with
      | none => exact typed
      | some value => exact ⟨typed, inits value rfl⟩
    exact .ite (.past fun _ => goes ()) (goes ())
  · refine .past fun _ => .past fun _ => within.signature.bind fun s signed => ?_
    exact within.block.bind fun body written => .past fun m => .pure ⟨signed.1, signed.2, written⟩
  · refine .past fun _ => .past fun name => .past fun _ => ?_
    refine (typesWrittenWithin fuel).type.bind fun aliased written => ?_
    exact .past fun _ => .past fun m => .pure written
  · exact within.ifElse.imp fun _ both => both.2
  · refine .past fun _ => within.expression.bind fun condition conditions => ?_
    exact within.block.bind fun body bodies => .past fun m => .pure ⟨conditions, bodies⟩
  · refine .past fun _ => .past fun bare => .ite ?_ ?_
    · exact .past fun _ => .past fun m => .pure trivial
    · exact within.expression.bind fun value written => .past fun _ => .past fun m => .pure written
  · exact within.block.bind fun body written => .pure written
  · exact within.expression.bind fun value written => .past fun _ => .past fun m => .pure written

theorem initializerNext :
    Gives L (Parser.initializer (fuel + 1)) fun init => ∀ e, init = some e → e.Written L := by
  rw [Parser.initializer]
  refine .past fun given => .ite ?_ ?_
  · exact within.expression.bind fun value written => .pure (by rintro _ ⟨⟩; exact written)
  · exact .pure nofun

theorem signatureNext :
    Gives L (Parser.signature (fuel + 1)) fun s => paramsWritten L s.1 ∧ typeWritten L s.2 := by
  rw [Parser.signature]
  refine .past fun _ => within.parameters.bind fun params written => .past fun _ => ?_
  exact (annotationGives fuel).bind fun ret typed => .pure ⟨written, typed⟩

theorem parametersNext : Gives L (Parser.parameters (fuel + 1)) (paramsWritten L) := by
  rw [Parser.parameters]
  refine .past fun closed => .ite (.pure trivial) ?_
  refine .past fun name => (annotationGives fuel).bind fun type typed => ?_
  refine within.initializer.bind fun default written => ?_
  have first (rest : List Param) (others : paramsWritten L rest) :
      paramsWritten L (.mk name type default :: rest) := by
    cases default with
    | none => exact ⟨typed, others⟩
    | some value => exact ⟨typed, written value rfl, others⟩
  refine .past fun more => .ite ?_ (.pure (first [] trivial))
  exact within.parameters.bind fun rest others => .pure (first rest others)

theorem ifElseNext : Gives L (Parser.ifElse (fuel + 1)) fun s => s.isBranch ∧ s.Written L := by
  rw [Parser.ifElse]
  refine .past fun span => .past fun _ => within.expression.bind fun condition conditions => ?_
  refine within.block.bind fun thenBranch thens => .past fun token => ?_
  extract_lets go
  have goes (other : Option Stmt) (elses : ∀ s, other = some s → s.isBranch ∧ s.Written L) :
      Gives L (go other) fun s => s.isBranch ∧ s.Written L := by
    refine .past fun m => .pure ?_
    cases other with
    | none => exact ⟨rfl, conditions, thens⟩
    | some other => exact ⟨rfl, conditions, thens, elses other rfl⟩
  refine .ite (.past fun _ => .past fun token => .ite ?_ ?_) (.bind (.pure nofun) goes)
  · refine .bind (.map within.ifElse fun s written => ?_) goes
    rintro _ ⟨⟩
    exact written
  · refine .bind (.map within.block fun body written => ?_) goes
    rintro _ ⟨⟩
    exact ⟨rfl, written⟩

theorem blockNext : Gives L (Parser.block (fuel + 1)) (Block.Written L) := by
  rw [Parser.block]
  refine .past fun span => .past fun _ => within.blockBody.bind fun body written => ?_
  exact .past fun m => .pure written

theorem blockBodyNext : Gives L (Parser.blockBody (fuel + 1)) (stmtsWritten L) := by
  rw [Parser.blockBody]
  refine .past fun token => ?_
  split
  · exact .past fun _ => .pure trivial
  · exact .fail
  · exact .fail
  · refine within.statement.bind fun s first => within.blockBody.bind fun rest others => ?_
    exact .pure ⟨first, others⟩

theorem expressionNext : Gives L (Parser.expression (fuel + 1)) (Expr.Written L) := by
  rw [Parser.expression]
  refine .past fun token => .past fun behind => ?_
  split
  · exact within.assignment
  · exact within.assignment
  · exact within.binary 0

theorem assignmentNext : Gives L (Parser.assignment (fuel + 1)) (Expr.Written L) := by
  rw [Parser.assignment]
  refine .past fun span => .past fun target => .past fun token => ?_
  extract_lets go
  have goes (op : Option BinaryOp) : Gives L (go op) (Expr.Written L) :=
    within.expression.bind fun value written => .past fun m => .pure written
  split
  · split
    · exact .past goes
    · exact .past goes
  · exact .past goes

theorem binaryNext (level : Nat) : Gives L (Parser.binary level (fuel + 1)) (Expr.Written L) := by
  rw [Parser.binary]
  refine .ite within.power ?_
  exact (within.binary (level + 1)).bind fun left written => within.binaryRest level written

theorem binaryRestNext (level : Nat) {left : Expr} (lefts : left.Written L) :
    Gives L (Parser.binaryRest level left (fuel + 1)) (Expr.Written L) := by
  rw [Parser.binaryRest]
  refine .past fun span => .past fun token => ?_
  split
  · split
    · refine .ite (.past fun _ => (within.binary (level + 1)).bind fun right rights => ?_)
        (.pure lefts)
      exact .past fun m => within.binaryRest level ⟨lefts, rights⟩
    · exact .pure lefts
  · exact .pure lefts

theorem powerNext : Gives L (Parser.power (fuel + 1)) (Expr.Written L) := by
  rw [Parser.power]
  refine within.unary.bind fun base bases => .past fun span => .past fun more => ?_
  refine .ite ?_ (.pure bases)
  exact within.power.bind fun exponent exponents => .past fun m => .pure ⟨bases, exponents⟩

theorem unaryNext : Gives L (Parser.unary (fuel + 1)) (Expr.Written L) := by
  have plain : Gives L (Parser.primary fuel >>= fun e => Parser.suffixes e fuel) (Expr.Written L) :=
    within.primary.bind fun e written => within.suffixes written
  rw [Parser.unary]
  refine .past fun span => .past fun token => ?_
  split
  · split
    · refine .past fun _ => within.unary.bind fun operand written => ?_
      exact .past fun m => .pure written
    · exact plain
  · exact plain

theorem suffixesNext {e : Expr} (written : e.Written L) :
    Gives L (Parser.suffixes e (fuel + 1)) (Expr.Written L) := by
  rw [Parser.suffixes]
  refine .past fun span => .past fun token => ?_
  split
  · refine .past fun _ => within.arguments.bind fun args given => .past fun _ => .past fun m => ?_
    exact within.suffixes ⟨written, given⟩
  · refine .past fun _ => .past fun token => ?_
    extract_lets go
    have goes (key : PropertyName) : Gives L (go key) (Expr.Written L) :=
      .past fun m => within.suffixes ⟨written, trivial⟩
    split <;> exact .past goes
  · refine .past fun _ => within.expression.bind fun key keys => .past fun _ => .past fun m => ?_
    exact within.suffixes ⟨written, keys⟩
  · split
    · split
      · exact .past fun _ => .past fun m => within.suffixes trivial
      · exact .fail
    · exact .pure written
  · exact .pure written

theorem argumentsNext : Gives L (Parser.arguments (fuel + 1)) (argsWritten L) := by
  rw [Parser.arguments]
  refine .past fun closed => .ite (.pure trivial) (.past fun token => .past fun behind => ?_)
  extract_lets go
  have goes (name : Option String) : Gives L (go name) (argsWritten L) := by
    refine within.expression.bind fun value written => .past fun more => .ite ?_ ?_
    · exact within.arguments.bind fun rest others => .pure ⟨written, others⟩
    · exact .pure ⟨written, trivial⟩
  split
  · exact .past fun _ => .past fun _ => .past goes
  · exact .past goes

theorem primaryNext : Gives L (Parser.primary (fuel + 1)) (Expr.Written L) := by
  rw [Parser.primary]
  refine .past fun span => peekGives.bind fun token literals => ?_
  split
  · exact .fail
  · exact .past fun _ => .past fun m => .pure trivial
  · refine .past fun _ => within.expression.bind fun inner written => .past fun _ => ?_
    exact .past fun m => .pure written
  · refine .past fun _ => within.signature.bind fun s signed => ?_
    exact within.block.bind fun body written => .past fun m => .pure ⟨signed.1, signed.2, written⟩
  · refine .past fun _ => within.properties.bind fun properties written => .past fun _ => ?_
    exact .past fun m => .pure written
  · split
    · rename_i read
      exact .past fun _ => .past fun m => .pure (literals _ rfl _ read)
    · exact .fail

theorem propertiesNext : Gives L (Parser.properties (fuel + 1)) (propertiesWritten L) := by
  change Gives L (_ >>= _) _
  refine .past fun closed => .ite (.pure trivial) (.past fun token => ?_)
  extract_lets go
  have goes (key : Key) (keys : key.Written L) : Gives L (go key) (propertiesWritten L) := by
    refine .past fun _ => within.expression.bind fun value written => .past fun more => .ite ?_ ?_
    · exact within.properties.bind fun rest others => .pure ⟨keys, written, others⟩
    · exact .pure ⟨keys, written, trivial⟩
  have refused : Gives L (.fail .missingKey >>= go) (propertiesWritten L) := .bind .fail goes
  rcases token with _ | token
  · exact refused
  cases token with
  | ident | string | integer => exact .bind (.pure trivial) goes
  | symbol symbol =>
    cases symbol with
    | lBracket =>
      exact within.expression.bind fun key keys => .past fun _ => .bind (.pure keys) goes
    | _ => exact refused
  | _ => exact refused

end WrittenWithin

theorem writtenWithin (fuel : Nat) : WrittenWithin L fuel := by
  induction fuel with
  | zero => exact .exhausted
  | succ fuel within =>
    exact
      { statement := within.statementNext
        initializer := within.initializerNext
        signature := within.signatureNext
        parameters := within.parametersNext
        ifElse := within.ifElseNext
        block := within.blockNext
        blockBody := within.blockBodyNext
        expression := within.expressionNext
        assignment := within.assignmentNext
        binary := within.binaryNext
        binaryRest := within.binaryRestNext
        power := within.powerNext
        unary := within.unaryNext
        suffixes := within.suffixesNext
        arguments := within.argumentsNext
        primary := within.primaryNext
        properties := within.propertiesNext }

theorem statementsWritten (fuel : Nat) : Gives L (statements fuel) (stmtsWritten L) := by
  induction fuel with
  | zero => exact .fail
  | succ fuel ih =>
    rw [statements]
    refine .past fun token => ?_
    split
    · exact .pure trivial
    · exact .pure trivial
    · refine (writtenWithin fuel).statement.bind fun s first => ih.bind fun rest others => ?_
      exact .pure ⟨first, others⟩

end Parser

theorem parsedWritten {tokens : List Spanned} {program : Program} (supplied : Supplied L tokens)
    (parsed : parse tokens = .ok program) : stmtsWritten L program := by
  unfold parse at parsed
  cases read : Parser.program (Parser.start tokens) with
  | error e => rw [read] at parsed; cases parsed
  | ok x =>
    rw [read] at parsed
    cases parsed
    refine (Parser.statementsWritten _ _ _ _ (fun t held => ?_) read).2
    exact supplied t (List.mem_filter.mp held).1

theorem parsedBraced {tokens : List Spanned} {program : Program}
    (parsed : parse tokens = .ok program) : stmtsBraced program :=
  statementsBraced program
    (parsedWritten (L := fun _ => True) (fun _ _ _ _ => trivial) parsed)

theorem parsedSource {source : String} {program : Program}
    (parsed : parseSource source = .ok program) :
    ∃ tokens, lex source = .ok tokens ∧ parse tokens = .ok program := by
  unfold parseSource at parsed
  split at parsed
  · cases parsed
  · rename_i lexed
    split at parsed
    · cases parsed
    · rename_i read
      cases parsed
      exact ⟨_, lexed, read⟩

end Quill
