import Quill.Machine.Step
import Mathlib.Data.List.Forall2
import Mathlib.Data.Option.Basic

/-! Values of two runs that correspond. They are equal but for the code of functions, which
corresponds as a given relation says; operators, built-in functions and member reads cannot tell
them apart. -/
namespace Quill

variable (R : Routine → Routine → Prop)

structure ClosureParam.Alike (p q : ClosureParam) : Prop where
  name : p.name = q.name
  default : Option.Rel R p.default q.default

structure Closure.Alike (c d : Closure) : Prop where
  id : c.id = d.id
  params : List.Forall₂ (ClosureParam.Alike R) c.params d.params
  body : R c.body d.body
  scope : c.scope = d.scope

def Value.Plain : Value → Prop
  | .object .. | .function _ => False
  | _ => True

mutual

inductive Value.Alike : Value → Value → Prop where
  | plain (v : Value) (plain : v.Plain) : Value.Alike v v
  | object (id : Nat) {es fs : List Entry} (entries : EntriesAlike es fs) :
      Value.Alike (.object id es) (.object id fs)
  | function {c d : Closure} (closure : c.Alike R d) : Value.Alike (.function c) (.function d)

inductive EntriesAlike : List Entry → List Entry → Prop where
  | nil : EntriesAlike [] []
  | cons (key : PropertyName) {v w : Value} {es fs : List Entry} (head : Value.Alike v w)
      (tail : EntriesAlike es fs) : EntriesAlike (.mk key v :: es) (.mk key w :: fs)

end

inductive AnswersAlike (P : α → β → Prop) : Except ε α → Except ε β → Prop where
  | ok {a : α} {b : β} (alike : P a b) : AnswersAlike P (.ok a) (.ok b)
  | error (e : ε) : AnswersAlike P (.error e) (.error e)

theorem relatedCases {P : α → β → Prop} {x : Option α} {y : Option β} (related : Option.Rel P x y) :
    x = none ∧ y = none ∨ ∃ a b, x = some a ∧ y = some b ∧ P a b := by
  cases related with
  | none => exact .inl ⟨rfl, rfl⟩
  | @some a b holds => exact .inr ⟨a, b, rfl, rfl, holds⟩

theorem answerCases {P : α → β → Prop} {x : Except ε α} {y : Except ε β}
    (alike : AnswersAlike P x y) :
    (∃ a b, x = .ok a ∧ y = .ok b ∧ P a b) ∨ ∃ e, x = .error e ∧ y = .error e := by
  cases alike with
  | @ok a b holds => exact .inl ⟨a, b, rfl, rfl, holds⟩
  | error e => exact .inr ⟨e, rfl, rfl⟩

variable {R}

theorem AnswersAlike.same {P : α → α → Prop} {x : Except ε α} (kept : ∀ a, x = .ok a → P a a) :
    AnswersAlike P x x := by
  cases x with
  | ok a => exact .ok (kept a rfl)
  | error e => exact .error e

theorem AnswersAlike.map {P : α → β → Prop} {Q : γ → δ → Prop} {x : Except ε α} {y : Except ε β}
    {f : α → γ} {g : β → δ} (alike : AnswersAlike P x y) (keeps : ∀ a b, P a b → Q (f a) (g b)) :
    AnswersAlike Q (x.map f) (y.map g) := by
  cases alike with
  | ok alike => exact .ok (keeps _ _ alike)
  | error e => exact .error e

theorem AnswersAlike.bind {P : α → β → Prop} {Q : γ → δ → Prop} {x : Except ε α} {y : Except ε β}
    {f : α → Except ε γ} {g : β → Except ε δ} (alike : AnswersAlike P x y)
    (keeps : ∀ a b, P a b → AnswersAlike Q (f a) (g b)) : AnswersAlike Q (x >>= f) (y >>= g) := by
  cases alike with
  | ok alike => exact keeps _ _ alike
  | error e => exact .error e

namespace Value.Alike

theorem none : Value.Alike R .none .none := .plain _ trivial

theorem bool (b : Bool) : Value.Alike R (.bool b) (.bool b) := .plain _ trivial

theorem int (n : Int64) : Value.Alike R (.int n) (.int n) := .plain _ trivial

theorem float (x : Float) : Value.Alike R (.float x) (.float x) := .plain _ trivial

theorem str (s : String) : Value.Alike R (.str s) (.str s) := .plain _ trivial

theorem typeName {v w : Value} (alike : v.Alike R w) : v.typeName = w.typeName := by
  cases alike <;> rfl

theorem truthy {v w : Value} (alike : v.Alike R w) : v.truthy = w.truthy := by
  cases alike <;> rfl

theorem number? {v w : Value} (alike : v.Alike R w) : v.number? = w.number? := by
  cases alike <;> rfl

theorem text? {v w : Value} (alike : v.Alike R w) : v.text? = w.text? := by
  cases alike <;> rfl

theorem key? {v w : Value} (alike : v.Alike R w) : v.key? = w.key? := by
  cases alike <;> rfl

theorem same {v v' w w' : Value} (left : v.Alike R v') (right : w.Alike R w') :
    v.same w = v'.same w' := by
  -- Objects and functions are compared by identity.
  cases left with
  | plain v plain =>
    cases right with
    | plain w _ => rfl
    | object id _ => cases v <;> rfl
    | function _ => cases v <;> first | rfl | exact plain.elim
  | object id _ =>
    cases right with
    | plain w _ => cases w <;> rfl
    | object _ _ => rfl
    | function _ => rfl
  | function closure =>
    cases right with
    | plain w plain => cases w <;> first | rfl | exact plain.elim
    | object _ _ => rfl
    | function other =>
      change (_ == _) = (_ == _)
      rw [closure.id, other.id]

end Value.Alike

mutual

theorem Value.Alike.text {v w : Value} : v.Alike R w → v.text = w.text
  | .plain _ _ => rfl
  | .object id entries => by
    rw [Value.text, Value.text, entries.texts]
  | .function closure => by
    rw [Value.text, Value.text, closure.params.length_eq]

theorem EntriesAlike.texts {es fs : List Entry} : EntriesAlike R es fs → entryTexts es = entryTexts fs
  | .nil => rfl
  | .cons key head tail => by
    rw [entryTexts, entryTexts, head.text, tail.texts]

end

theorem setEntryHit (key : PropertyName) (v w : Value) (es : List Entry) :
    setEntry (.mk key v :: es) key w = .mk key w :: es := if_pos rfl

theorem setEntryMiss {key other : PropertyName} (differs : other ≠ key) (v w : Value)
    (es : List Entry) : setEntry (.mk other v :: es) key w = .mk other v :: setEntry es key w :=
  if_neg differs

theorem valueAtHit (key : PropertyName) (v : Value) (es : List Entry) :
    valueAt? (.mk key v :: es) key = some v := by
  rw [valueAt?, List.find?_cons, Entry.key, decide_eq_true rfl]
  rfl

theorem valueAtMiss {key other : PropertyName} (differs : other ≠ key) (v : Value)
    (es : List Entry) : valueAt? (.mk other v :: es) key = valueAt? es key := by
  rw [valueAt?, List.find?_cons, Entry.key, decide_eq_false differs, valueAt?]

section
variable {S : Routine → Routine → Prop}

theorem ClosureParam.Alike.weaken (weaker : ∀ r s, R r s → S r s) {p q : ClosureParam}
    (alike : p.Alike R q) : p.Alike S q := by
  refine ⟨alike.name, ?_⟩
  rcases relatedCases alike.default with ⟨missing, missing'⟩ | ⟨r, s, found, found', routine⟩
  · rw [missing, missing']
    exact .none
  · rw [found, found']
    exact .some (weaker r s routine)

theorem Closure.Alike.weaken (weaker : ∀ r s, R r s → S r s) {c d : Closure}
    (alike : c.Alike R d) : c.Alike S d :=
  ⟨alike.id, alike.params.imp fun _ _ => ClosureParam.Alike.weaken weaker,
    weaker _ _ alike.body, alike.scope⟩

mutual

theorem Value.Alike.weaken (weaker : ∀ r s, R r s → S r s) {v w : Value} :
    v.Alike R w → v.Alike S w
  | .plain v plain => .plain v plain
  | .object id entries => .object id (entries.weaken weaker)
  | .function closure => .function (closure.weaken weaker)

theorem EntriesAlike.weaken (weaker : ∀ r s, R r s → S r s) {es fs : List Entry} :
    EntriesAlike R es fs → EntriesAlike S es fs
  | .nil => .nil
  | .cons key head tail => .cons key (head.weaken weaker) (tail.weaken weaker)

end

end

theorem ClosureParam.Alike.equal {p q : ClosureParam} (alike : p.Alike Eq q) : p = q := by
  obtain ⟨name, default⟩ := alike
  obtain ⟨_, _⟩ := p
  obtain ⟨_, _⟩ := q
  cases name
  cases default with
  | none => rfl
  | some same => cases same; rfl

theorem Closure.Alike.equal {c d : Closure} (alike : c.Alike Eq d) : c = d := by
  obtain ⟨id, params, body, scope⟩ := alike
  have same := params.imp fun _ _ => ClosureParam.Alike.equal
  rw [List.forall₂_eq_eq_eq] at same
  obtain ⟨_, _, _, _⟩ := c
  obtain ⟨_, _, _, _⟩ := d
  cases id
  cases same
  cases body
  cases scope
  rfl

mutual

theorem Value.Alike.equal {v w : Value} : v.Alike Eq w → v = w
  | .plain _ _ => rfl
  | .object id entries => congrArg (Value.object id) entries.equal
  | .function closure => congrArg Value.function closure.equal

theorem EntriesAlike.equal {es fs : List Entry} : EntriesAlike Eq es fs → es = fs
  | .nil => rfl
  | .cons key head tail => by rw [head.equal, tail.equal]

end

namespace EntriesAlike

theorem length {es fs : List Entry} : EntriesAlike R es fs → es.length = fs.length
  | .nil => rfl
  | .cons _ _ tail => congrArg (· + 1) tail.length

theorem set {es fs : List Entry} {v w : Value} (key : PropertyName) (entries : EntriesAlike R es fs)
    (value : v.Alike R w) : EntriesAlike R (setEntry es key v) (setEntry fs key w) := by
  match entries with
  | .nil => exact .cons key value .nil
  | .cons other head tail =>
    by_cases found : other = key
    · rw [found, setEntryHit, setEntryHit]
      exact .cons key value tail
    · rw [setEntryMiss found, setEntryMiss found]
      exact .cons other head (tail.set key value)

theorem at? {es fs : List Entry} (key : PropertyName) (entries : EntriesAlike R es fs) :
    Option.Rel (Value.Alike R) (valueAt? es key) (valueAt? fs key) := by
  match entries with
  | .nil => exact .none
  | @EntriesAlike.cons _ other v w es fs head tail =>
    by_cases found : other = key
    · rw [found, valueAtHit, valueAtHit]
      exact .some head
    · rw [valueAtMiss found, valueAtMiss found]
      exact tail.at? key

end EntriesAlike

namespace Value

theorem binaryPlain {op : Opcode} {a b v : Value} (given : binary op a b = .ok v) : v.Plain := by
  unfold binary integerQuotient at given
  cases op <;> simp only [reduceCtorEq] at given <;>
    (repeat' split at given) <;> cases given <;> trivial

theorem unaryPlain {op : Opcode} {a v : Value} (given : unary op a = .ok v) : v.Plain := by
  unfold unary at given
  split at given <;> cases given <;> trivial

theorem numberPlain {v : Value} {x : Float} (found : v.number? = some x) : v.Plain := by
  cases v <;> trivial

theorem textPlain {v : Value} {s : String} (found : v.text? = some s) : v.Plain := by
  cases v <;> trivial

theorem binaryRefused {op : Opcode} {a b : Value} (code : ¬ (a.Plain ∧ b.Plain)) (eq : op ≠ .eq)
    (ne : op ≠ .ne) : binary op a b = .error (.binaryMismatch op a.typeName b.typeName) := by
  -- Only comparisons take objects and functions.
  have numbers (x y : Float) : ¬ (a.number? = some x ∧ b.number? = some y) :=
    fun found => code ⟨numberPlain found.1, numberPlain found.2⟩
  have texts (s t : String) : ¬ (a.text? = some s ∧ b.text? = some t) :=
    fun found => code ⟨textPlain found.1, textPlain found.2⟩
  unfold binary integerQuotient
  cases op <;> dsimp only <;> (repeat' split) <;> first | rfl | simp_all [Plain]

theorem memberPlain {o k v : Value} (plain : o.Plain) (given : memberOf o k = .ok v) : v.Plain := by
  unfold memberOf at given
  split at given
  · exact plain.elim
  · rename_i s index
    cases given
    cases (if index < 0 then Option.none else s.toList[index.toInt.toNat]?) <;> trivial
  · cases given

end Value

namespace Value.Alike

theorem binary {a a' b b' : Value} (op : Opcode) (left : a.Alike R a') (right : b.Alike R b') :
    Value.binary op a b = Value.binary op a' b' := by
  by_cases eq : op = .eq
  · rw [eq, Value.binary, Value.binary, left.same right]
  by_cases ne : op = .ne
  · rw [ne, Value.binary, Value.binary, left.same right]
  have refused (code : ¬ (a.Plain ∧ b.Plain)) (code' : ¬ (a'.Plain ∧ b'.Plain)) :
      Value.binary op a b = Value.binary op a' b' := by
    rw [binaryRefused code eq ne, binaryRefused code' eq ne, left.typeName, right.typeName]
  cases left with
  | plain a _ =>
    cases right with
    | plain b _ => rfl
    | object _ _ => exact refused (fun both => both.2) (fun both => both.2)
    | function _ => exact refused (fun both => both.2) (fun both => both.2)
  | object _ _ => exact refused (fun both => both.1) (fun both => both.1)
  | function _ => exact refused (fun both => both.1) (fun both => both.1)

theorem unary {a a' : Value} (op : Opcode) (operand : a.Alike R a') :
    Value.unary op a = Value.unary op a' := by
  cases operand with
  | plain _ _ => rfl
  | object _ _ => cases op <;> rfl
  | function _ => cases op <;> rfl

theorem getD {x y : Option Value} (found : Option.Rel (Value.Alike R) x y) :
    (x.getD .none).Alike R (y.getD .none) := by
  cases found with
  | some alike => exact alike
  | none => exact .none

theorem member {o o' k k' : Value} (object : o.Alike R o') (key : k.Alike R k') :
    AnswersAlike (Value.Alike R) (memberOf o k) (memberOf o' k') := by
  cases object with
  | plain o plain =>
    cases key with
    | plain k _ => exact .same fun v given => .plain v (memberPlain plain given)
    | object _ _ => cases o <;> first | exact plain.elim | exact .error _
    | function _ => cases o <;> first | exact plain.elim | exact .error _
  | object id entries =>
    simp only [memberOf, ← key.key?]
    cases found : k.key? with
    | none =>
      simp only [Machine.badKey, key.typeName]
      exact .error _
    | some key => exact .ok (getD (entries.at? key))
  | function _ => exact .error _

end Value.Alike

namespace Intrinsic

theorem textsAlike {args args' : List Value} (alike : List.Forall₂ (Value.Alike R) args args') :
    args.map Value.text = args'.map Value.text := by
  induction alike with
  | nil => rfl
  | cons head _ ih => rw [List.map_cons, List.map_cons, head.text, ih]

theorem callAlike (broken : Option String) (i : Intrinsic) {args args' : List Value}
    (alike : List.Forall₂ (Value.Alike R) args args') : i.call broken args = i.call broken args' := by
  have texts := textsAlike alike
  cases i with
  | print =>
    change printLines broken _ = printLines broken _
    rw [texts]
  | len =>
    cases alike with
    | nil => rfl
    | @cons v w vs ws head rest =>
      cases head with
      | plain _ plain => cases v <;> first | exact plain.elim | rfl
      | object id entries => simp only [call, entries.length]
      | function _ => rfl
  | str =>
    cases alike with
    | nil => rfl
    | cons head rest => simp only [call, head.text]
  | sqrt =>
    cases alike with
    | nil => rfl
    | cons head rest => simp only [call, expects, head.number?, head.typeName]
  | assert =>
    cases alike with
    | nil => rfl
    | @cons v w vs ws head rest =>
      cases head with
      | plain _ plain =>
        cases v with
        | bool b =>
          cases b with
          | true => rfl
          | false =>
            cases rest with
            | nil => rfl
            | cons message _ => simp only [call, List.head?_cons, Option.map_some, message.text]
        | _ => first | exact plain.elim | rfl
      | object id entries => rfl
      | function _ => rfl

theorem callPlain {broken : Option String} {i : Intrinsic} {args : List Value} {r : Result}
    (given : i.call broken args = .ok r) : r.value.Plain := by
  unfold call printLines at given
  cases i <;> (repeat' split at given) <;> cases given <;> trivial

end Intrinsic

end Quill
