import Quill.Syntax.Parser

/-! What rules of the parser take from the front of the input, told by the tokens alone: a rule is
followed from its first token to its last, one operation after the other. -/
namespace Quill.Parser

def Takes {α : Type} (p : Parser α) (before after : List Token) (gives : α → Prop) : Prop :=
  ∀ c, c.rest.map (·.token) = before → ∃ a c', p c = .ok (a, c') ∧ c'.rest <:+ c.rest ∧
    c'.rest.map (·.token) = after ∧ gives a

namespace Takes

variable {α β : Type} {p : Parser α} {f : α → Parser β} {before mid after : List Token}
  {gives : α → Prop} {ends : β → Prop}

theorem pure {a : α} (said : gives a) : Takes (Pure.pure a) after after gives :=
  fun c ahead => ⟨a, c, rfl, List.suffix_rfl, ahead, said⟩

theorem bind (first : Takes p before mid gives)
    (second : ∀ a, gives a → Takes (f a) mid after ends) :
    Takes (p >>= f) before after ends := by
  intro c ahead
  obtain ⟨a, c₁, parsed, left, ahead₁, said⟩ := first c ahead
  obtain ⟨b, c₂, parsed₂, left₂, ahead₂, said₂⟩ := second a said c₁ ahead₁
  refine ⟨b, c₂, ?_, left₂.trans left, ahead₂, said₂⟩
  simp only [Bind.bind, StateT.bind, parsed]
  exact parsed₂

theorem step {a : α} (first : Takes p before mid (· = a)) (second : Takes (f a) mid after ends) :
    Takes (p >>= f) before after ends :=
  first.bind fun _ same => same ▸ second

end Takes

section
variable {t : Token} {ts : List Token}

theorem takesPeek : Takes peek ts ts (· = ts.head?) := by
  rintro c rfl
  exact ⟨_, c, rfl, List.suffix_rfl, rfl, List.head?_map.symm⟩

theorem takesPeekNext : Takes peekNext ts ts (· = ts.tail.head?) := by
  rintro c rfl
  refine ⟨_, c, rfl, List.suffix_rfl, rfl, ?_⟩
  rw [← List.map_tail, List.head?_map, ← List.drop_one]
  rfl

theorem takesHere : Takes here ts ts fun _ => True := by
  rintro c rfl
  exact ⟨_, c, rfl, List.suffix_rfl, rfl, trivial⟩

theorem takesMark (span : Span) : Takes (mark span) ts ts fun _ => True := by
  rintro c rfl
  exact ⟨_, _, rfl, List.suffix_rfl, rfl, trivial⟩

theorem takesAdvance : Takes advance (t :: ts) ts (· = some t) := by
  rintro ⟨_ | ⟨token, rest⟩, last, next⟩ ahead <;> cases ahead
  exact ⟨_, _, rfl, List.suffix_cons _ _, rfl, rfl⟩

theorem takesIsNext (s : Symbol) :
    Takes (isNext s) ts ts (· = decide (ts.head? = some (.symbol s))) :=
  takesPeek.step (.pure rfl)

theorem takesEat (s : Symbol) : Takes (eat s) (.symbol s :: ts) ts (· = true) := by
  refine (takesIsNext s).step ?_
  rw [if_pos (by simp)]
  exact takesAdvance.step (.pure rfl)

theorem takesNothing {s : Symbol} (other : ts.head? ≠ some (.symbol s)) :
    Takes (eat s) ts ts (· = false) := by
  refine (takesIsNext s).step ?_
  rw [if_neg (by simpa using other)]
  exact .pure rfl

theorem takesExpected (s : Symbol) (slot : Slot) :
    Takes (expect s slot) (.symbol s :: ts) ts fun _ => True :=
  (takesEat s).step (.pure trivial)

theorem takesName (name : String) (slot : Slot) :
    Takes (expectName slot) (.ident name :: ts) ts (· = name) :=
  takesPeek.step (takesAdvance.step (.pure rfl))

end

end Quill.Parser
