import Quill.Proofs.Soundness.Variables

/-! Machines that keep to types: the values on all levels have the types of the expressions that have
left them, those of variables have the types of their declarations, and so have the members of
objects that are being made. -/
namespace Quill

inductive Fault.Excused : Fault → Prop where
  | divisionByZero : Excused .divisionByZero
  | callDepth (limit : Nat) : Excused (.callDepth limit)
  | stepLimit (limit : Nat) : Excused (.stepLimit limit)
  | stackLimit (limit : Nat) : Excused (.stackLimit limit)

section
variable (nodes : List Bound.Node)

def Cell.Typed (x : Cell) : Prop :=
  ∃ e : Bound.Expr, e.node ∈ nodes ∧ x.source = some e.mark.id ∧ x.value.HasType e.type.widen

structure Cell.Holds (x : Cell) (e : Bound.Expr) : Prop where
  source : x.source = some e.mark.id
  known : e.node ∈ nodes
  admits : e.Admits x.value

inductive View.Matches : View → List Cell → Prop where
  | values {types : TypedNames} {values : List Bound.Expr} {nested : Bool} {cells : List Cell}
      (holds : List.Forall₂ (Cell.Holds nodes) cells values) :
      Matches ⟨types, none, values, nested⟩ cells
  | cue {cue : Cue} {types : TypedNames} {values : List Bound.Expr} {nested : Bool} {x : Cell}
      {cells : List Cell} (source : x.source = some cue.id) (admits : cue.Admits x.value)
      (holds : List.Forall₂ (Cell.Holds nodes) cells values) :
      Matches ⟨types, some cue, values, nested⟩ (x :: cells)

def PropertySeen (types : TypedNames) (x : Operand) (p : Bound.Property) : Prop :=
  ∃ key value, x = .tuple (.code key) (.code value) ∧
    (views nodes).Runs key ⟨types, none, [], true⟩ (p.keyView types) ∧
    (views nodes).Runs value ⟨types, none, [], true⟩ ⟨types, none, [p.value.core], true⟩

/-- What a level that makes an object waits for, and what is to be known when it comes. The entries
so far are those of the properties before. -/
inductive Pending.Seeks (types : TypedNames) (properties : List Bound.Property) :
    Pending → View → Prop where
  | key {index : Nat} {entries : List Entry} {value : Code} {rest : List Operand}
      {done others : List Bound.Property} {p : Bound.Property} (all : properties = done ++ p :: others)
      (typed : EntriesTyped entries (Bound.gathered [] done))
      (runs : (views nodes).Runs value ⟨types, none, [], true⟩ ⟨types, none, [p.value.core], true⟩)
      (seen : List.Forall₂ (PropertySeen nodes types) rest others) :
      Seeks types properties (.objectKey index entries value rest) (p.keyView types)
  | value {index : Nat} {entries : List Entry} {key : PropertyName} {rest : List Operand}
      {done others : List Bound.Property} {p : Bound.Property} (all : properties = done ++ p :: others)
      (typed : EntriesTyped entries (Bound.gathered [] done)) (named : p.key.name? = some key)
      (seen : List.Forall₂ (PropertySeen nodes types) rest others) :
      Seeks types properties (.objectValue index entries key rest)
        ⟨types, none, [p.value.core], true⟩

structure Level.Makes (l : Level) (types : TypedNames) (note : Bound.Note)
    (properties : List Bound.Property) (last : View) (nested : Bool) : Prop where
  frames : l.frames = []
  source : l.source? = some note.mark.id
  known : (Bound.Expr.object note properties).node ∈ nodes
  keys : ∀ p ∈ properties, ∃ k, p.key.Named k
  type : note.type = .interface none (Bound.gathered [] properties) []
  goes : ∃ values, List.Forall₂ (Cell.Holds nodes) l.stack values ∧
    (views nodes).closed.Stands l.routine.code (l.ip + 1)
      ⟨types, none, .object note properties :: values, nested⟩ last

/-- The levels below one whose code leads to `last`. Only objects are waited for, in the scope that
they are made in. -/
inductive Waits (types : TypedNames) (scope : Nat) : List Waiting → View → Bool → Prop where
  | program {last : View} (used : last.cue = none) : Waits types scope [] last false
  | object {w : Waiting} {outer : List Waiting} {note : Bound.Note}
      {properties : List Bound.Property} {last last' : View} {nested : Bool}
      (here : w.level.scope = scope)
      (makes : w.level.Makes nodes types note properties last' nested)
      (seeks : w.pending.Seeks nodes types properties last)
      (others : Waits types scope outer last' nested) : Waits types scope (w :: outer) last true

structure Machine.Sees (p last : View) (m : Machine) : Prop where
  frames : m.current.frames = []
  vars : ∃ chain, m.scopes.Holds m.current.scope chain ∧ chain.Typed p.types
  stack : p.Matches nodes m.current.stack
  waits : Waits nodes p.types m.current.scope m.outer last p.nested

def Machine.WellTyped (m : Machine) : Prop :=
  ∃ p last, m.Sees nodes p last ∧
    (views nodes).closed.Stands m.current.routine.code m.current.ip p last

structure Machine.Makes (m : Machine) (types : TypedNames) (note : Bound.Note)
    (properties : List Bound.Property) (last : View) (nested : Bool) : Prop where
  level : m.current.Makes nodes types note properties last nested
  vars : ∃ chain, m.scopes.Holds m.current.scope chain ∧ chain.Typed types
  waits : Waits nodes types m.current.scope m.outer last nested

inductive Transition.WellTyped : Transition → Prop where
  | running {m : Machine} (typed : m.WellTyped nodes) : Transition.WellTyped (.running m)
  | ended {m : Machine} (typed : ∀ x ∈ m.current.stack, x.Typed nodes) :
      Transition.WellTyped (.ended m)
  | failed (m : Machine) {e : RunError} (excused : e.fault.Excused) :
      Transition.WellTyped (.failed m e)

end

variable {nodes : List Bound.Node} {types : TypedNames} {values : List Bound.Expr} {nested : Bool}
  {cells : List Cell} {m : Machine} {p q last : View} {note : Bound.Note}
  {properties : List Bound.Property}

namespace View.Matches

theorem held (matched : View.Matches nodes ⟨types, none, values, nested⟩ cells) :
    List.Forall₂ (Cell.Holds nodes) cells values := by
  cases matched with
  | values holds => exact holds

theorem cued {cue : Cue} (matched : View.Matches nodes ⟨types, some cue, values, nested⟩ cells) :
    ∃ x rest, cells = x :: rest ∧ x.source = some cue.id ∧ cue.Admits x.value ∧
      List.Forall₂ (Cell.Holds nodes) rest values := by
  cases matched with
  | cue source admits holds => exact ⟨_, _, rfl, source, admits, holds⟩

theorem named {n : String} {id : Nat}
    (matched : View.Matches nodes ⟨types, some (.name n id), values, nested⟩ cells) :
    ∃ source rest, cells = ⟨.str n, source⟩ :: rest ∧ List.Forall₂ (Cell.Holds nodes) rest values := by
  obtain ⟨⟨v, source⟩, rest, rfl, -, admits, holds⟩ := matched.cued
  cases admits
  exact ⟨source, rest, rfl, holds⟩

theorem keyed {p : Bound.Property} {k : PropertyName} (named : p.key.Named k)
    (matched : (p.keyView types).Matches nodes cells) :
    ∃ x, cells = [x] ∧ x.value.key? = some k := by
  obtain ⟨key, value, type⟩ := p
  cases key with
  | known k' =>
    obtain ⟨x, rest, rfl, -, admits, holds⟩ := matched.cued
    cases holds
    cases named.1
    exact ⟨x, rfl, admits⟩
  | computed e =>
    obtain ⟨x, rest, holds, others, rfl⟩ := List.forall₂_cons_right_iff.mp matched.held
    cases others
    exact ⟨x, rfl, named.2 e rfl _ holds.admits⟩

end View.Matches

theorem Cell.Holds.typed {x : Cell} {e : Bound.Expr} (holds : x.Holds nodes e) : x.Typed nodes :=
  ⟨e, holds.known, holds.source, holds.admits.typed⟩

theorem cellsTyped (holds : List.Forall₂ (Cell.Holds nodes) cells values) :
    ∀ x ∈ cells, x.Typed nodes := by
  induction holds with
  | nil => nofun
  | cons first _ ih => exact List.forall_mem_cons.mpr ⟨first.typed, ih⟩

namespace Bound

theorem gatheredAppend {k : PropertyName} {p : Property} (named : p.key.name? = some k)
    (members : List TyMember) (done : List Property) :
    gathered members (done ++ [p]) =
      insertMember (gathered members done) (.mk k p.value.core.type.widen false) := by
  induction done generalizing members with
  | nil =>
    obtain ⟨key, value, type⟩ := p
    change key.name? = some k at named
    simp only [List.nil_append, gathered, named]
    rfl
  | cons q rest ih =>
    obtain ⟨key, value, type⟩ := q
    rw [List.cons_append, gathered, gathered]
    split
    · exact ih _
    · exact ih _

end Bound

namespace Machine

theorem excused {fault : Fault} (setup : Setup) (node : Option Nat) (excused : fault.Excused) :
    (m.fail setup fault node).WellTyped nodes :=
  .failed _ excused

namespace Sees

theorem goes {target : Nat} (sees : m.Sees nodes p last) (stack : q.Matches nodes cells)
    (stands : (views nodes).closed.Stands m.current.routine.code target q last)
    (types : q.types = p.types) (nested : q.nested = p.nested) :
    Transition.WellTyped nodes
      (.running { m with current := { m.current with stack := cells, ip := target } }) :=
  .running ⟨q, last, ⟨sees.frames, types ▸ sees.vars, stack, types ▸ nested ▸ sees.waits⟩, stands⟩

theorem withScopes {k : ScopeHeap} (sees : m.Sees nodes p last)
    (vars : ∃ chain, k.Holds m.current.scope chain ∧ chain.Typed p.types) :
    Machine.Sees nodes p last { m with scopes := k } :=
  ⟨sees.frames, vars, sees.stack, sees.waits⟩

theorem leaves {k : ScopeHeap} {scope : Nat} {chain : Chain} (sees : m.Sees nodes p last)
    (holds : k.Holds scope chain) (typed : chain.Typed q.types) (stack : q.Matches nodes cells)
    (stands : (views nodes).closed.Stands m.current.routine.code (m.current.ip + 1) q last)
    (outside : p.nested = false) (nested : q.nested = false) :
    Transition.WellTyped nodes
      (.running
        { m with
          scopes := k
          current :=
            { m.current with stack := cells, scope := scope, ip := m.current.ip + 1 } }) := by
  -- Outside of objects the scope may change.
  have waits := sees.waits
  rw [outside] at waits
  refine .running ⟨q, last, ⟨sees.frames, ⟨chain, holds, typed⟩, stack, ?_⟩, stands⟩
  rw [nested]
  generalize m.outer = outer at waits
  cases waits with
  | program used => exact .program used

end Sees

namespace Makes

theorem evaluates {code : Code} {slot : Nat} {pending : Pending} {last' : View} (setup : Setup)
    (makes : m.Makes nodes types note properties last nested)
    (runs : (views nodes).Runs code ⟨types, none, [], true⟩ last')
    (seeks : pending.Seeks nodes types properties last') :
    (m.evaluate setup (m.current.inner code slot) m.current.scope pending).WellTyped nodes := by
  simp only [evaluate]
  split
  · exact excused setup none (.callDepth _)
  · refine .running ⟨⟨types, none, [], true⟩, last', ?_, (runs.piece viewsFold.jumpsOnly).stands⟩
    exact ⟨rfl, makes.vars, .values .nil, .object rfl makes.level seeks makes.waits⟩

theorem next {index : Nat} {entries : List Entry} {items : List Operand}
    {rest : List Bound.Property} (makes : m.Makes nodes types note properties last nested)
    (setup : Setup) (done : List Bound.Property) (all : properties = done ++ rest)
    (typed : EntriesTyped entries (Bound.gathered [] done))
    (seen : List.Forall₂ (PropertySeen nodes types) items rest) :
    (m.nextProperty setup index entries items).WellTyped nodes := by
  cases seen with
  | nil =>
    rw [List.append_nil] at all
    subst all
    obtain ⟨values, holds, stands⟩ := makes.level.goes
    have object : (Cell.mk (.object m.nextId entries) m.current.source?).Holds nodes
        (.object note properties) := by
      refine ⟨makes.level.source, makes.level.known, ?_, nofun⟩
      have type : (Bound.Expr.object note properties).type = _ := makes.level.type
      rw [type]
      exact typed.object _ _
    exact .running ⟨_, last, ⟨makes.level.frames, makes.vars, .values (.cons object holds),
      makes.waits⟩, stands⟩
  | cons first others =>
    obtain ⟨key, value, rfl, keys, runs⟩ := first
    exact makes.evaluates setup keys (.key all typed runs others)

theorem resumes {pending : Pending} {last' : View} (setup : Setup)
    (makes : m.Makes nodes types note properties last nested)
    (seeks : pending.Seeks nodes types properties last') (matched : last'.Matches nodes cells) :
    (m.resume setup ((cells.head?.map Cell.value).getD .none) pending).WellTyped nodes := by
  cases seeks with
  | @key _ _ _ _ _ _ p all typed runs seen =>
    obtain ⟨k, named⟩ := makes.level.keys p (by rw [all]; simp)
    obtain ⟨x, rfl, key⟩ := matched.keyed named
    simp only [List.head?_cons, Option.map_some, Option.getD_some, resume, key]
    exact makes.evaluates setup runs (.value all typed named.1 seen)
  | @value _ _ _ _ done rest p all typed named seen =>
    obtain ⟨x, below, holds, others, rfl⟩ := List.forall₂_cons_right_iff.mp matched.held
    simp only [List.head?_cons, Option.map_some, Option.getD_some, resume]
    refine makes.next setup (done ++ [p]) ?_ ?_ seen
    · rw [all, List.append_assoc]
      rfl
    · rw [Bound.gatheredAppend named]
      exact typed.set holds.admits.typed

end Makes

theorem Sees.ends (sees : m.Sees nodes last last) (setup : Setup) :
    (m.endLevel setup).WellTyped nodes := by
  -- At the end of its code a level goes on with what waits for it.
  obtain ⟨-, vars, stack, waits⟩ := sees
  unfold endLevel
  generalize m.outer = outer at waits
  obtain ⟨types, cue, values, nested⟩ := last
  dsimp only at vars waits
  cases waits with
  | program used =>
    cases used
    exact .ended (cellsTyped stack.held)
  | @object w outer note properties _ last' nested here makes seeks others =>
    obtain ⟨level, pending⟩ := w
    have makes : Machine.Makes nodes { m with current := peakBelow level m.current, outer := outer }
        types note properties last' nested :=
      ⟨⟨makes.frames, makes.source, makes.known, makes.keys, makes.type, makes.goes⟩, here ▸ vars,
        here ▸ others⟩
    exact makes.resumes setup seeks stack

end Machine

end Quill
