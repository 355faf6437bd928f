import Quill.Proofs.Sources.Agreement

/-! Runs that read no more than the beginning of some code. They go the same way whatever follows
there, so a run of code of any length can be told from a short one. -/
namespace Quill

def jumpsInside (code : Code) : Bool :=
  code.zipIdx.all fun (i, ip) =>
    match i.operand.offset? with
    | some offset => decide ((ip : Int) + 1 + offset.toInt ≤ code.length)
    | none => true

theorem jumpsInsideAt {code : Code} (inside : jumpsInside code) {ip : Nat} {i : Instr}
    (found : code[ip]? = some i) {offset : Int32} (given : i.operand.offset? = some offset) :
    (ip : Int) + 1 + offset.toInt ≤ code.length := by
  have held : (i, ip) ∈ code.zipIdx := List.mem_zipIdx_iff_getElem?.mpr found
  have leads := List.all_eq_true.mp inside _ held
  simp only [given] at leads
  exact of_decide_eq_true leads

/-- Code that begins as shorter code does, up to sources. No jump of the shorter code leads out of it,
so its targets do not depend on how long the code is. -/
structure Begins (long short : Code) : Prop where
  same : ∃ rest, SameUnsourced long (short ++ rest)
  inside : jumpsInside short

namespace Begins

variable {long short : Code}

theorem atPlace (begins : Begins long short) {ip : Nat} (before : ip < short.length) :
    Option.Rel (fun i j => i.unsourced = j.unsourced) long[ip]? short[ip]? := by
  obtain ⟨rest, same⟩ := begins.same
  have both := same.atPlace ip
  rwa [List.getElem?_append_left before] at both

theorem longer (begins : Begins long short) : short.length ≤ long.length := by
  obtain ⟨rest, same⟩ := begins.same
  rw [same.length, List.length_append]
  exact Nat.le_add_right _ _

theorem target (begins : Begins long short) {ip : Nat} {i : Instr} (found : short[ip]? = some i)
    {offset : Int32} (given : i.operand.offset? = some offset) :
    jumpTarget? ip offset long.length = jumpTarget? ip offset short.length := by
  have inside := jumpsInsideAt begins.inside found given
  have longer := begins.longer
  unfold jumpTarget?
  by_cases forward : 0 ≤ (ip : Int) + 1 + offset.toInt
  · rw [if_pos ⟨forward, by omega⟩, if_pos ⟨forward, inside⟩]
  · rw [if_neg fun both => forward both.1, if_neg fun both => forward both.1]

end Begins

def parameterless (body : Code) (source : Option Nat) : Instr :=
  .mk .proc (.tuple (.list []) (.code body)) source

/-- Instructions that are the same but for sources, or make a function whose body stands at the cut
and begins on the left as it does on the right. -/
inductive Instr.Begun (cut place : Place) (ip : Nat) : Instr → Instr → Prop where
  | same {i j : Instr} (same : i.unsourced = j.unsourced) : Begun cut place ip i j
  | function {body start : Code} {source source' : Option Nat} (begins : Begins body start)
      (there : place.inner ip 0 = cut) :
      Begun cut place ip (parameterless body source) (parameterless start source')

/-- Code of two runs that is alike, except at the cut: there only the beginning is. -/
structure Routine.Begun (cut : Place) (r s : Routine) : Prop where
  place : r.place = s.place
  alike (ip : Nat) (inside : s.place = cut → ip < s.code.length) :
    Option.Rel (Instr.Begun cut s.place ip) r.code[ip]? s.code[ip]?
  targets {ip : Nat} {i : Instr} {offset : Int32} (found : s.code[ip]? = some i)
    (given : i.operand.offset? = some offset) :
    jumpTarget? ip offset r.code.length = jumpTarget? ip offset s.code.length

theorem relatedWeaker {P Q : α → β → Prop} {x : Option α} {y : Option β} (related : Option.Rel P x y)
    (weaker : ∀ a b, P a b → Q a b) : Option.Rel Q x y := by
  cases related with
  | none => exact .none
  | some holds => exact .some (weaker _ _ holds)

namespace Routine.Begun

variable {cut : Place}

theorem same {c d : Code} (place : Place) (codes : Quill.SameUnsourced c d) :
    Begun cut ⟨c, place⟩ ⟨d, place⟩ where
  place := rfl
  alike ip _ := relatedWeaker (codes.atPlace ip) fun _ _ => .same
  targets _ _ := by rw [codes.length]

theorem begins {c d : Code} (codes : Begins c d) : Begun cut ⟨c, cut⟩ ⟨d, cut⟩ where
  place := rfl
  alike _ inside := relatedWeaker (codes.atPlace (inside rfl)) fun _ _ => .same
  targets found given := codes.target found given

theorem around {c d front front' more more' : Code} {source source' : Option Nat} {place : Place}
    (before : Quill.SameUnsourced front front') (bodies : Begins c d)
    (there : place.inner front.length 0 = cut) (behind : Quill.SameUnsourced more more') :
    Begun cut ⟨front ++ parameterless c source :: more, place⟩
      ⟨front' ++ parameterless d source' :: more', place⟩ where
  place := rfl
  alike ip _ := by
    have length := before.length
    rcases Nat.lt_trichotomy ip front.length with earlier | here | later
    · rw [List.getElem?_append_left earlier, List.getElem?_append_left (length ▸ earlier)]
      exact relatedWeaker (before.atPlace ip) fun _ _ => .same
    · subst here
      rw [List.getElem?_append_right (Nat.le_refl _),
        List.getElem?_append_right (Nat.le_of_eq length.symm), length, Nat.sub_self]
      exact .some (.function bodies (length ▸ there))
    · obtain ⟨k, rfl⟩ := Nat.exists_eq_add_of_lt later
      have index : front.length + k + 1 - front.length = k + 1 := by omega
      rw [List.getElem?_append_right (by omega), List.getElem?_append_right (by omega), ← length,
        index, List.getElem?_cons_succ, List.getElem?_cons_succ]
      exact relatedWeaker (behind.atPlace k) fun _ _ => .same
  targets _ _ := by
    simp only [List.length_append, List.length_cons, before.length, behind.length]

end Routine.Begun

variable {cut : Place} {setup : Setup} {spans : List Span}

theorem begunLockstep : (unsourcedLink (Routine.Begun cut) setup spans).Lockstep :=
  unsourcedLockstep fun one another => by rw [one.place, another.place]

section
variable {l l' : Level}

theorem Level.innerBegun (routine : l.routine.Begun cut l'.routine) (ip : l.ip = l'.ip) {c d : Code}
    (same : SameUnsourced c d) (slot : Nat) : (l.inner c slot).Begun cut (l'.inner d slot) := by
  unfold Level.inner
  rw [routine.place, ip]
  exact .same _ same

theorem begunInstr (routine : l.routine.Begun cut l'.routine) (ip : l.ip = l'.ip)
    (scope : l.scope = l'.scope) {i i' : Instr} (found : l'.instr? = some i')
    (begun : i.Begun cut l'.routine.place l'.ip i') :
    i.Alike (unsourcedLink (Routine.Begun cut) setup spans) l l' i' := by
  cases begun with
  | same same =>
    refine unsourcedInstr setup spans scope same
      (fun slot c d codes => Level.innerBegun routine ip codes slot) fun offset given => ?_
    rw [ip]
    refine routine.targets found ?_
    rw [← i'.operand.offsetUnsourced, ← i'.operandUnsourced, ← same, i.operandUnsourced,
      i.operand.offsetUnsourced, given]
  | @function body start _ _ begins there =>
    refine instrShaped rfl scope (fun _ => .tuple (.list .nil) (.code begins)) ?_ (by rintro ⟨⟩)
    rintro (_ | slot) c d found found' codes
    · unfold Level.inner
      rw [routine.place, ip, there]
      exact .begins codes
    · cases found

theorem begunReads (setup : Setup) (spans : List Span) (routine : l.routine.Begun cut l'.routine)
    (ip : l.ip = l'.ip) (scope : l.scope = l'.scope)
    (inside : l'.routine.place = cut → l'.ip + 1 < l'.routine.code.length) :
    l.ReadsAlike (Routine.Begun cut) setup spans l' where
  here := by
    have both := routine.alike l'.ip fun there => Nat.lt_of_succ_lt (inside there)
    rw [Level.instr?, ip]
    rcases relatedCases both with ⟨none, none'⟩ | ⟨i, i', found, found', begun⟩
    · rw [none, Level.instr?, none']
      exact .none
    · rw [found, Level.instr?, found']
      exact .some (begunInstr routine ip scope found' begun)
  returns := by
    unfold Level.returnsNext
    rw [ip]
    rcases relatedCases (routine.alike (l'.ip + 1) inside) with
      ⟨none, none'⟩ | ⟨i, i', found, found', begun⟩
    · rw [none, none']
    · rw [found, found']
      cases begun with
      | same same =>
        simp only
        rw [← i.opcodeUnsourced, same, i'.opcodeUnsourced]
      | function _ _ => rfl

end

namespace Machine

/-- Whether a run reads no more at the cut than it has there. -/
def staysInside (setup : Setup) (cut : Place) : (fuel : Nat) → Machine → Bool
  | 0, _ => true
  | fuel + 1, m =>
    decide (m.current.routine.place = cut → m.current.ip + 1 < m.current.routine.code.length) &&
      match m.step setup with
      | .running next => staysInside setup cut fuel next
      | .ended _ | .failed .. => true

theorem Unsourced.run {m m' : Machine} (fuel : Nat)
    (related : m.Unsourced (Routine.Begun cut) setup spans m')
    (inside : m'.staysInside (setup.withSpans spans) cut fuel) :
    Transition.Alike (unsourcedLink (Routine.Begun cut) setup spans) (m.run setup fuel)
      (m'.run (setup.withSpans spans) fuel) := by
  induction fuel generalizing m m' with
  | zero => exact .running related.alike related.ip
  | succ fuel ih =>
    obtain ⟨here, later⟩ := Bool.and_eq_true_iff.mp inside
    have current := related.alike.current
    have reads := begunReads setup spans current.routine related.ip current.scope
      (of_decide_eq_true here)
    have alike : Transition.Alike _ (m.step setup) (m'.step (setup.withSpans spans)) :=
      related.step reads begunLockstep
    rw [Machine.run, Machine.run]
    generalize stepped : m.step setup = t at alike ⊢
    generalize stepped' : m'.step (setup.withSpans spans) = t' at alike later ⊢
    cases alike with
    | running alike ip => exact ih (related.next reads alike ip stepped stepped') later
    | ended alike => exact .ended alike
    | failed fault alike calls blamed => exact .failed fault alike calls blamed
    | leftExcused _ excused => exact excused.elim
    | rightExcused _ excused => exact excused.elim

end Machine

/-- How a run ends, if it does: with a fault or without one. -/
def Transition.outcome? : Transition → Option (Option Fault)
  | .running _ => none
  | .ended _ => some none
  | .failed _ e => some (some e.fault)

theorem Transition.failedFor {t : Transition} {fault : Fault}
    (failed : t.outcome? = some (some fault)) : ∃ last e, t = .failed last e ∧ e.fault = fault := by
  cases t with
  | running _ => cases failed
  | ended _ => cases failed
  | failed last e =>
    cases failed
    exact ⟨last, e, rfl, rfl⟩

theorem Transition.Alike.outcome {R : Routine → Routine → Prop} {t t' : Transition}
    (alike : t.Alike (unsourcedLink R setup spans) t') : t.outcome? = t'.outcome? := by
  cases alike with
  | running | ended | failed => rfl
  | leftExcused _ excused => exact excused.elim
  | rightExcused _ excused => exact excused.elim

/-- A unit of code ends as one does that is cut off somewhere, if the latter stays inside. -/
theorem begunOutcome (setup : Setup) (spans : List Span) {c d : Code} {fuel : Nat}
    (begun : Routine.Begun cut ⟨c, .ofUnit 1⟩ ⟨d, .ofUnit 1⟩)
    (inside : (Machine.new.load d).staysInside (setup.withSpans spans) cut fuel) :
    ((Machine.new.load c).run setup fuel).outcome? =
      ((Machine.new.load d).run (setup.withSpans spans) fuel).outcome? := by
  have related : (Machine.new.load c).Unsourced (Routine.Begun cut) setup spans
      (Machine.new.load d) := by
    refine ⟨?_, rfl, rfl⟩
    exact
      { scopes := newAlike _
        output := rfl
        diagnostics := .nil
        nextId := rfl
        current := ⟨.nil, rfl, begun, .nil, .inr rfl⟩
        outer := .nil }
  exact (related.run fuel inside).outcome

end Quill
