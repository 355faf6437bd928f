import Quill.Syntax.Parser

/-! Rules of the parser that neither look at places nor give out numbers. All rules of types are
such, and the ones that every other rule begins with. -/
namespace Quill.Parser

class inductive Plain : {α : Type} → Parser α → Prop where
  | pure {α : Type} (a : α) : Plain (pure a : Parser α)
  | bind {α β : Type} {p : Parser α} {f : α → Parser β} (first : Plain p)
      (second : ∀ a, Plain (f a)) : Plain (p >>= f)
  | fail {α : Type} (cause : ParseCause) : Plain (fail cause : Parser α)
  | peek : Plain peek
  | peekNext : Plain peekNext
  | advance : Plain advance

attribute [instance] Plain.pure Plain.fail Plain.peek Plain.peekNext Plain.advance

instance {α β : Type} {p : Parser α} {f : α → Parser β} [first : Plain p]
    [second : ∀ a, Plain (f a)] : Plain (p >>= f) :=
  .bind first second

instance {α : Type} {c : Prop} [Decidable c] {p q : Parser α} [yes : Plain p] [no : Plain q] :
    Plain (if c then p else q) := by
  split
  · exact yes
  · exact no

instance {s : Symbol} : Plain (isNext s) := by unfold isNext; infer_instance

instance {s : Symbol} : Plain (eat s) := by unfold eat; infer_instance

instance {s : Symbol} {slot : Slot} : Plain (expect s slot) := by unfold expect; infer_instance

instance {slot : Slot} : Plain (expectName slot) := by
  unfold expectName
  refine .bind inferInstance fun token => ?_
  split <;> infer_instance

structure TypesPlain (fuel : Nat) : Prop where
  type : Plain (type fuel)
  intersectionType : Plain (intersectionType fuel)
  typesAfter (sep : Symbol) : Plain (typesAfter sep fuel)
  arrayType : Plain (arrayType fuel)
  arraySuffix (element : TypeExpr) : Plain (arraySuffix element fuel)
  primaryType : Plain (primaryType fuel)
  typeArgs : Plain (typeArgs fuel)
  typeParams : Plain (typeParams fuel)
  typeParam : Plain (typeParam fuel)
  typeMembers : Plain (typeMembers fuel)
  typeMember : Plain (typeMember fuel)

theorem typesPlain (fuel : Nat) : TypesPlain fuel := by
  induction fuel with
  | zero => constructor <;> intros <;> exact inferInstanceAs (Plain (fail _))
  | succ fuel ih =>
    obtain ⟨type, intersectionType, typesAfter, arrayType, arraySuffix, primaryType, typeArgs,
      typeParams, typeParam, typeMembers, typeMember⟩ := ih
    constructor
    · rw [Parser.type]
      refine .bind inferInstance fun first => .bind inferInstance fun more => ?_
      split <;> infer_instance
    · rw [Parser.intersectionType]
      refine .bind inferInstance fun first => .bind inferInstance fun more => ?_
      split <;> infer_instance
    · intro sep
      rw [Parser.typesAfter]
      infer_instance
    · rw [Parser.arrayType]
      infer_instance
    · intro element
      rw [Parser.arraySuffix]
      infer_instance
    · rw [Parser.primaryType]
      refine .bind inferInstance fun token => ?_
      split <;> try infer_instance
      split <;> infer_instance
    · rw [Parser.typeArgs]
      infer_instance
    · rw [Parser.typeParams]
      infer_instance
    · rw [Parser.typeParam]
      refine .bind inferInstance fun token => .bind inferInstance fun behind => ?_
      split <;> infer_instance
    · rw [Parser.typeMembers]
      infer_instance
    · rw [Parser.typeMember]
      refine .bind inferInstance fun index => ?_
      split
      · infer_instance
      · refine .bind inferInstance fun token => ?_
        extract_lets mutable keyed go
        have keys (key : PropertyName) : Plain (keyed key) := by infer_instance
        have goes (x : Unit) : Plain (go x) := by
          refine .bind inferInstance fun token => ?_
          split <;> infer_instance
        split
        · exact .bind inferInstance fun _ => goes ()
        · exact goes ()

instance {fuel : Nat} : Plain ( annotation fuel) := by
  have type := (typesPlain fuel).type
  unfold annotation
  infer_instance

end Quill.Parser
