import Quill.Proofs.Scoping.Scenes
import Quill.Proofs.Scoping.Shows

/-! Machines whose variables are declared: wherever code goes on, now or when a call returns or a
level ends, the scopes there declare the names that the code expects. -/
namespace Quill

/-- The defaults of parameters that are left run where those before them are defined, and the body
where all are. -/
def FillsIn (outer : List (List String)) (body : Code) : List String → List ClosureParam → Prop
  | given, [] => RunsIn (given :: outer) body
  | given, p :: rest =>
    (∀ r, p.default = some r → RunsIn (given :: outer) r.code) ∧
      FillsIn outer body (p.name :: given) rest

def Closure.RunsIn (c : Closure) (names : List (List String)) : Prop :=
  FillsIn names c.body.code [] c.params

section
variable (h : ScopeHeap)

def Closure.Scoped (c : Closure) : Prop := ∃ names, h.Shows c.scope names ∧ c.RunsIn names

def Value.Scoped (v : Value) : Prop := ∀ c ∈ v.closures, c.Scoped h

def EntriesScoped (entries : List Entry) : Prop := ∀ c ∈ entriesClosures entries, c.Scoped h

def CellsScoped (cells : List Cell) : Prop := ∀ x ∈ cells, x.value.Scoped h

def ScopeHeap.Scoped : Prop :=
  ∀ (i : Nat) (f : ScopeFrame), h.frames[i]? = some f → ∀ x ∈ f.vars, x.2.Scoped h

/-- What a scene says of the stack. A function that awaits its name has nothing to run in yet. -/
inductive Scene.Matches (scope : Nat) : Scene → List Cell → Prop where
  | cells {names : List (List String)} {cells : List Cell} (known : CellsScoped h cells) :
      Matches scope ⟨names, []⟩ cells
  | name {n : String} {source : Option Nat} {names : List (List String)} {top : List Due}
      {cells : List Cell} (rest : Matches scope ⟨names, top⟩ cells) :
      Matches scope ⟨names, .name n :: top⟩ (⟨.str n, source⟩ :: cells)
  | function {n : String} {c : Closure} {source : Option Nat} {names : List (List String)}
      {cells : List Cell} (here : c.scope = scope)
      (runs : c.RunsIn (Scene.context ⟨names, [.function n]⟩)) (known : CellsScoped h cells) :
      Matches scope ⟨names, [.function n]⟩ (⟨.function c, source⟩ :: cells)

def GoesOn (scope : Nat) (code : Code) (ip : Nat) (p : Scene) : Prop :=
  h.Shows scope p.names ∧ ∃ last, scenes.closed.Stands code ip p ⟨last, []⟩

def Frame.Scoped (f : Frame) : Prop :=
  ∃ names, GoesOn h f.scope f.routine.code f.returnIp ⟨names, []⟩

structure Level.Scoped (l : Level) (ip : Nat) (names : List (List String)) : Prop where
  goes : GoesOn h l.scope l.routine.code ip ⟨names, []⟩
  cells : CellsScoped h l.stack
  frames : ∀ f ∈ l.frames, f.Scoped h

inductive Pending.Scoped (names : List (List String)) : Pending → Prop where
  | argument {done : List Argument} {name : Option String} {rest : List Operand}
      (given : ∀ a ∈ done, a.value.Scoped h) (runs : ∀ x ∈ rest, ArgumentRuns names x) :
      Pending.Scoped names (.argument done name rest)
  | default {c : Closure} {scope : Nat} {name : String} {rest : List (ClosureParam × Option Value)}
      {outer : List (List String)} {given : List String} (visible : h.Shows scope (given :: outer))
      (fills : FillsIn outer c.body.code (name :: given) (rest.map (·.1)))
      (values : ∀ x ∈ rest, ∀ v, x.2 = some v → v.Scoped h) :
      Pending.Scoped names (.default c scope name rest)
  | objectKey {index : Nat} {entries : List Entry} {value : Code} {rest : List Operand}
      (known : EntriesScoped h entries) (runs : RunsIn names value)
      (others : ∀ x ∈ rest, PropertyRuns names x) :
      Pending.Scoped names (.objectKey index entries value rest)
  | objectValue {index : Nat} {entries : List Entry} {key : PropertyName} {rest : List Operand}
      (known : EntriesScoped h entries) (others : ∀ x ∈ rest, PropertyRuns names x) :
      Pending.Scoped names (.objectValue index entries key rest)

def Waiting.Scoped (w : Waiting) : Prop :=
  ∃ names, w.level.Scoped h (w.level.ip + 1) names ∧ w.pending.Scoped h names

end

structure Machine.Sound (m : Machine) : Prop where
  heap : m.scopes.Scoped
  outer : ∀ w ∈ m.outer, w.Scoped m.scopes
  frames : ∀ f ∈ m.current.frames, f.Scoped m.scopes

structure Machine.Scoped (m : Machine) : Prop extends m.Sound where
  here : ∃ p, GoesOn m.scopes m.current.scope m.current.routine.code m.current.ip p ∧
    p.Matches m.scopes m.current.scope m.current.stack

structure Machine.Ready (m : Machine) (names : List (List String)) : Prop extends m.Sound where
  goes : GoesOn m.scopes m.current.scope m.current.routine.code (m.current.ip + 1) ⟨names, []⟩
  cells : CellsScoped m.scopes m.current.stack

def Fault.Undefined : Fault → Prop
  | .undefinedVariable _ => True
  | _ => False

inductive Transition.Scoped : Transition → Prop where
  | running {m : Machine} (known : m.Scoped) : Transition.Scoped (.running m)
  | ended (m : Machine) : Transition.Scoped (.ended m)
  | failed (m : Machine) {e : RunError} (other : ¬ e.fault.Undefined) :
      Transition.Scoped (.failed m e)

variable {h k : ScopeHeap}

section
variable (grows : h.Keeps k)
include grows

theorem Closure.Scoped.keeps {c : Closure} (known : c.Scoped h) : c.Scoped k := by
  obtain ⟨names, visible, runs⟩ := known
  exact ⟨names, visible.keeps grows, runs⟩

theorem Value.Scoped.keeps {v : Value} (known : v.Scoped h) : v.Scoped k :=
  fun c inside => (known c inside).keeps grows

theorem EntriesScoped.keeps {entries : List Entry} (known : EntriesScoped h entries) :
    EntriesScoped k entries :=
  fun c inside => (known c inside).keeps grows

theorem CellsScoped.keeps {cells : List Cell} (known : CellsScoped h cells) :
    CellsScoped k cells :=
  fun x inside => (known x inside).keeps grows

theorem GoesOn.keeps {scope ip : Nat} {code : Code} {p : Scene} (goes : GoesOn h scope code ip p) :
    GoesOn k scope code ip p :=
  ⟨goes.1.keeps grows, goes.2⟩

theorem Frame.Scoped.keeps {f : Frame} (known : f.Scoped h) : f.Scoped k := by
  obtain ⟨names, goes⟩ := known
  exact ⟨names, goes.keeps grows⟩

theorem Level.Scoped.keeps {l : Level} {ip : Nat} {names : List (List String)}
    (known : l.Scoped h ip names) : l.Scoped k ip names :=
  ⟨known.goes.keeps grows, known.cells.keeps grows,
    fun f inside => (known.frames f inside).keeps grows⟩

theorem Pending.Scoped.keeps {pending : Pending} {names : List (List String)}
    (known : pending.Scoped h names) : pending.Scoped k names := by
  cases known with
  | argument given runs => exact .argument (fun a inside => (given a inside).keeps grows) runs
  | default visible fills values =>
    exact .default (visible.keeps grows) fills fun x inside v given =>
      (values x inside v given).keeps grows
  | objectKey known runs others => exact .objectKey (known.keeps grows) runs others
  | objectValue known others => exact .objectValue (known.keeps grows) others

theorem Waiting.Scoped.keeps {w : Waiting} (known : w.Scoped h) : w.Scoped k := by
  obtain ⟨names, level, pending⟩ := known
  exact ⟨names, level.keeps grows, pending.keeps grows⟩

end

theorem plainScoped {v : Value} (plain : v.Plain) : v.Scoped h := by
  rw [Value.Scoped, plain.closures]
  exact fun _ inside => nomatch inside

section
variable {scope : Nat} {names : List (List String)} {cells : List Cell} {n : String}

theorem Scene.Matches.values (matched : Scene.Matches h scope ⟨names, []⟩ cells) :
    CellsScoped h cells := by
  cases matched with
  | cells known => exact known

theorem Scene.Matches.named {top : List Due}
    (matched : Scene.Matches h scope ⟨names, .name n :: top⟩ cells) :
    ∃ source rest, cells = ⟨.str n, source⟩ :: rest ∧ Scene.Matches h scope ⟨names, top⟩ rest := by
  cases matched with
  | name rest => exact ⟨_, _, rfl, rest⟩

theorem Scene.Matches.made (matched : Scene.Matches h scope ⟨names, [.function n]⟩ cells) :
    ∃ c source rest, cells = ⟨.function c, source⟩ :: rest ∧ c.scope = scope ∧
      c.RunsIn (Scene.context ⟨names, [.function n]⟩) ∧ CellsScoped h rest := by
  cases matched with
  | function here runs known => exact ⟨_, _, _, rfl, here, runs, known⟩

end

namespace ScopeHeap

theorem setInMember {n : String} {v : Value} {vars : List (String × Value)} {x : String × Value}
    (inside : x ∈ ScopeFrame.setIn n v vars) : x = (n, v) ∨ x ∈ vars := by
  induction vars with
  | nil =>
    rw [ScopeFrame.setIn, List.mem_singleton] at inside
    exact .inl inside
  | cons y rest ih =>
    rw [ScopeFrame.setIn] at inside
    split at inside
    · rcases List.mem_cons.mp inside with same | inside
      · exact .inl same
      · exact .inr (List.mem_cons_of_mem _ inside)
    · rcases List.mem_cons.mp inside with rfl | inside
      · exact .inr List.mem_cons_self
      · exact (ih inside).imp_right (List.mem_cons_of_mem _)

theorem Scoped.define {scope : Nat} {n : String} {v : Value} (heap : h.Scoped)
    (value : v.Scoped (h.define scope n v)) : (h.define scope n v).Scoped := by
  have keeps := keepsDefine h scope n v
  intro i f found x inside
  change (h.frames.modify scope _)[i]? = some f at found
  rw [Array.getElem?_modify] at found
  split at found
  · obtain ⟨g, before, rfl⟩ := Option.map_eq_some_iff.mp found
    rcases setInMember inside with rfl | inside
    · exact value
    · exact (heap i g before x inside).keeps keeps
  · exact (heap i f found x inside).keeps keeps

theorem Scoped.child {scope : Nat} (heap : h.Scoped) : (h.child scope).2.Scoped := by
  intro i f found x inside
  refine Value.Scoped.keeps (keepsChild h scope) ?_
  change (h.frames.push _)[i]? = some f at found
  rw [Array.getElem?_push] at found
  split at found
  · cases found
    cases inside
  · exact heap i f found x inside

theorem Scoped.get {scope : Nat} {n : String} {v : Value} (heap : h.Scoped)
    (found : h.get? scope n = some v) : v.Scoped h := by
  obtain ⟨i, -, found⟩ := Option.bind_eq_some_iff.mp found
  obtain ⟨f, here, found⟩ := Option.bind_eq_some_iff.mp found
  obtain ⟨x, first, rfl⟩ := Option.map_eq_some_iff.mp found
  exact heap i f here x (List.mem_of_find?_eq_some first)

end ScopeHeap

theorem Machine.Sound.withScopes {m : Machine} (sound : m.Sound) (keeps : m.scopes.Keeps k)
    (heap : k.Scoped) : Machine.Sound { m with scopes := k } :=
  ⟨heap, fun w inside => (sound.outer w inside).keeps keeps,
    fun f inside => (sound.frames f inside).keeps keeps⟩

theorem Machine.Sound.ready {m : Machine} {names : List (List String)} (sound : m.Sound)
    (goes : GoesOn m.scopes m.current.scope m.current.routine.code (m.current.ip + 1) ⟨names, []⟩)
    (cells : CellsScoped m.scopes m.current.stack) : m.Ready names :=
  ⟨sound, goes, cells⟩

namespace Machine.Ready

variable {m : Machine} {names : List (List String)}

theorem withScopes (ready : m.Ready names) (keeps : m.scopes.Keeps k) (heap : k.Scoped) :
    Machine.Ready { m with scopes := k } names :=
  ⟨ready.toSound.withScopes keeps heap, ready.goes.keeps keeps, ready.cells.keeps keeps⟩

theorem withStack {stack : List Cell} (ready : m.Ready names) (cells : CellsScoped m.scopes stack) :
    (m.withStack stack).Ready names :=
  ⟨⟨ready.heap, ready.outer, ready.frames⟩, ready.goes, cells⟩

theorem advances {stack : List Cell} (ready : m.Ready names) (cells : CellsScoped m.scopes stack) :
    (m.advance stack).Scoped :=
  .running ⟨⟨ready.heap, ready.outer, ready.frames⟩, _, ready.goes, .cells cells⟩

theorem pushes {v : Value} {stack : List Cell} (ready : m.Ready names) (value : v.Scoped m.scopes)
    (cells : CellsScoped m.scopes stack) : (m.push v stack).Scoped :=
  ready.advances (List.forall_mem_cons.mpr ⟨value, cells⟩)

theorem skips (ready : m.Ready names) (setup : Setup) (op : Opcode) (expected : String) :
    (m.skip setup op expected).Scoped :=
  .running ⟨⟨ready.heap, ready.outer, ready.frames⟩, _, ready.goes, .cells ready.cells⟩

end Machine.Ready

theorem Machine.fails {m : Machine} {fault : Fault} (setup : Setup) (node : Option Nat)
    (other : ¬ fault.Undefined) : (m.fail setup fault node).Scoped :=
  .failed _ other

end Quill
