import Quill.Proofs.Folding.Blocks
import Quill.Proofs.Returning.Flow
import Quill.Proofs.Soundness.Variables
import Quill.Proofs.Typing.Discipline

/-! Runs of bodies over their own variables. As long as the call has not returned, its variables
have their types and what its expressions have left lies on top of the stack. -/
namespace Quill

namespace Chain

variable {own rest : Chain} {name : String} {value : Value}

theorem getOwn (found : own.get? name = some value) : get? (own ++ rest) name = some value := by
  induction own with
  | nil => cases found
  | cons vars more ih =>
    rw [get?] at found
    rw [List.cons_append, get?]
    split at found
    · exact found
    · exact ih found

theorem updateOwn {own' : Chain} (found : own.update? name value = some own') :
    update? (own ++ rest) name value = some (own' ++ rest) := by
  induction own generalizing own' with
  | nil => cases found
  | cons vars more ih =>
    rw [update?] at found
    rw [List.cons_append, update?]
    split at found
    · rename_i here
      cases found
      rw [if_pos here]
      rfl
    · rename_i missing
      obtain ⟨more', below, rfl⟩ := Option.map_eq_some_iff.mp found
      rw [if_neg missing, ih below]
      rfl

theorem assignOwn {own' : Chain} {h : ScopeHeap} {scope : Nat}
    (holds : h.Holds scope (own ++ rest)) (found : own.update? name value = some own') :
    (h.assign scope name value).Holds scope (own' ++ rest) := by
  have assigned : (h.assign scope name value).Holds scope (assign (own ++ rest) name value) :=
    holds.assign
  rwa [assign, updateOwn found, Option.getD_some] at assigned

end Chain

inductive Shows : Option Cue → List Bound.Expr → List Cell → Prop where
  | nil : Shows none [] []
  | value {e : Bound.Expr} {x : Cell} {values : List Bound.Expr} {cells : List Cell}
      (admits : e.Admits x.value) (others : Shows none values cells) :
      Shows none (e :: values) (x :: cells)
  | cue {cue : Cue} {x : Cell} {values : List Bound.Expr} {cells : List Cell}
      (admits : cue.Admits x.value) (others : Shows none values cells) :
      Shows (some cue) values (x :: cells)

structure Machine.Inside (base : List Frame) (outer : List Waiting) (p : View) (m : Machine) :
    Prop where
  frames : ∃ f, m.current.frames = f :: base
  outer : m.outer = outer
  vars : ∃ own rest, m.scopes.Holds m.current.scope (own ++ rest) ∧ rest ≠ [] ∧ own.Typed p.types
  stack : ∃ cells below, m.current.stack = cells ++ below ∧ Shows p.cue p.values cells

section
variable (nodes : List Bound.Node) (gives : Value → Prop) (base : List Frame) (outer : List Waiting)

def Machine.InBody (m : Machine) : Prop :=
  ∃ p last, m.Inside base outer p ∧ last.live = false ∧
    (bodies nodes gives).closed.Stands m.current.routine.code m.current.ip ⟨p, true⟩ last

inductive Transition.Follows : Transition → Prop where
  | inside {m : Machine} (body : m.InBody nodes gives base outer) : Follows (.running m)
  | returned {m : Machine} {x : Cell} {below : List Cell} (frames : m.current.frames = base)
      (others : m.outer = outer) (stack : m.current.stack = x :: below) (given : gives x.value) :
      Follows (.running m)
  | failed (m : Machine) (e : RunError) : Follows (.failed m e)

end

variable {nodes : List Bound.Node} {gives : Value → Prop} {base : List Frame}
  {outer : List Waiting} {m : Machine} {i : Instr} {p q : View} {last : BodyPoint}
  {values : List Bound.Expr} {cells below : List Cell} {e : Bound.Expr} {v : Value}

theorem Shows.name {n : String} {id : Nat} (shows : Shows (some (.name n id)) values cells) :
    ∃ source rest, cells = ⟨.str n, source⟩ :: rest ∧ Shows none values rest := by
  cases shows with
  | @cue _ x _ rest admits others =>
    obtain ⟨v, source⟩ := x
    cases admits
    exact ⟨source, rest, rfl, others⟩

theorem Shows.top (shows : Shows none (e :: values) cells) :
    ∃ x rest, cells = x :: rest ∧ e.Admits x.value ∧ Shows none values rest := by
  cases shows with
  | value admits others => exact ⟨_, _, rfl, admits, others⟩

namespace Machine

theorem goesOn {n : Machine} {own rest : Chain}
    (next : (bodies nodes gives).closed.Stands n.current.routine.code n.current.ip ⟨q, true⟩ last)
    (shows : Shows q.cue q.values cells)
    (holds : n.scopes.Holds n.current.scope (own ++ rest)) (around : rest ≠ [])
    (typed : own.Typed q.types) (dead : last.live = false)
    (stack : n.current.stack = cells ++ below) (frames : ∃ f, n.current.frames = f :: base)
    (others : n.outer = outer) : Transition.Follows nodes gives base outer (.running n) :=
  .inside ⟨q, last, ⟨frames, others, ⟨own, rest, holds, around, typed⟩, cells, below, stack, shows⟩,
    dead, next⟩

theorem pushes {own rest : Chain} {types : TypedNames} {nested : Bool} {k : ScopeHeap}
    (shows : Shows none values cells) (admits : e.Admits v)
    (holds : k.Holds m.current.scope (own ++ rest)) (around : rest ≠ [])
    (typed : own.Typed types) (dead : last.live = false)
    (next : (bodies nodes gives).closed.Stands m.current.routine.code (m.current.ip + 1)
      ⟨⟨types, none, e :: values, nested⟩, true⟩ last)
    (frames : ∃ f, m.current.frames = f :: base) (others : m.outer = outer) :
    Transition.Follows nodes gives base outer
      (Machine.push { m with scopes := k } v (cells ++ below)) :=
  goesOn next (.value admits shows) holds around typed dead rfl frames others

theorem Inside.straight (inside : m.Inside base outer p) (setup : Setup)
    (sees : i.Sees nodes p q) (flat : i.opcode.isFlat) (dead : last.live = false)
    (next : (bodies nodes gives).closed.Stands m.current.routine.code (m.current.ip + 1) ⟨q, true⟩
      last) :
    (m.exec setup i).Follows nodes gives base outer := by
  obtain ⟨frames, others, ⟨own, rest, holds, around, typed⟩, cells, below, stack, shows⟩ := inside
  cases sees with
  | constant op operand _ admits =>
    rw [execPush op operand, stack]
    exact pushes shows admits holds around typed dead next frames others
  | blank op _ admits =>
    simp only [exec, op, stack]
    exact pushes shows admits holds around typed dead next frames others
  | cue op operand _ admits =>
    rw [execPush op operand, stack]
    exact goesOn next (.cue admits shows) holds around typed dead rfl frames others
  | load op declared _ admits =>
    obtain ⟨source, cells, rfl, fewer⟩ := shows.name
    obtain ⟨v, given, has⟩ := typed.get declared
    simp only [exec, op, execLoad, popName, stack, List.cons_append, holds.get, Chain.getOwn given]
    exact pushes fewer (admits v has) holds around typed dead next frames others
  | store op declared _ fits admits =>
    obtain ⟨source, more, rfl, named⟩ := shows.name
    obtain ⟨x, cells, rfl, value, fewer⟩ := named.top
    obtain ⟨updated, found, kept⟩ := typed.update declared (fits x.value value)
    simp only [exec, op, execStore, popAssignment, popName, stack, List.cons_append]
    exact pushes fewer (admits x.value value) (Chain.assignOwn holds found) around kept dead next
      frames others
  | define op _ fits =>
    obtain ⟨source, more, rfl, named⟩ := shows.name
    obtain ⟨x, cells, rfl, value, fewer⟩ := named.top
    simp only [exec, op, execDefine, popAssignment, popName, stack, List.cons_append]
    cases typed with
    | cons first more =>
      have has := fits x.value value
      exact goesOn next fewer holds.define around (.cons (first.define has) more) dead rfl frames
        others
  | member op | computed op | object op => rw [op] at flat; cases flat
  | binary op _ computes =>
    obtain ⟨right, more, rfl, rights, below'⟩ := shows.top
    obtain ⟨left, cells, rfl, lefts, fewer⟩ := below'.top
    have computed := computes left.value right.value lefts rights
    rw [execOfBinary op]
    cases given : Value.binary i.opcode left.value right.value with
    | ok v =>
      rw [given] at computed
      simp only [execBinary, stack, List.cons_append, given]
      exact pushes fewer computed holds around typed dead next frames others
    | error reason =>
      rw [given] at computed
      cases computed
      simp only [execBinary, stack, List.cons_append, given]
      exact .failed _ _
  | unary op _ computes =>
    obtain ⟨operand, cells, rfl, admits, fewer⟩ := shows.top
    have computed := computes operand.value admits
    rw [execOfUnary op]
    cases given : Value.unary i.opcode operand.value with
    | ok v =>
      rw [given] at computed
      simp only [execUnary, stack, List.cons_append, given]
      exact pushes fewer computed holds around typed dead next frames others
    | error reason =>
      simp only [execUnary, stack, List.cons_append, given]
      exact .failed _ _
  | pop op =>
    obtain ⟨x, cells, rfl, -, fewer⟩ := shows.top
    simp only [exec, op, stack, List.cons_append]
    exact goesOn next fewer holds around typed dead rfl frames others
  | beginScope op =>
    have child : (m.scopes.child m.current.scope).2.Holds (m.scopes.child m.current.scope).1
        (([] :: own) ++ rest) := holds.child
    simp only [exec, op, beginScope, stack]
    exact goesOn next shows child around typed.opened dead rfl frames others
  | endScope op inner =>
    cases typed with
    | cons first more =>
      obtain ⟨scope, enclosing, left⟩ :=
        holds.enclosing (List.append_ne_nil_of_right_ne_nil _ around)
      simp only [exec, op, endScope, enclosing, Option.getD_some, stack]
      exact goesOn next shows left around more dead rfl frames others

theorem Inside.jumps {offset : Int32} {target : Nat} (inside : m.Inside base outer p)
    (setup : Setup) (turns : i.Turns p q) (given : i.operand.offset? = some offset)
    (reached : jumpTarget? m.current.ip offset m.current.routine.code.length = some target)
    (dead : last.live = false)
    (there : (bodies nodes gives).closed.Stands m.current.routine.code target ⟨q, true⟩ last)
    (next : i.opcode ≠ .jmp → (bodies nodes gives).closed.Stands m.current.routine.code
      (m.current.ip + 1) ⟨q, true⟩ last) : (m.exec setup i).Follows nodes gives base outer := by
  obtain ⟨frames, others, ⟨own, rest, holds, around, typed⟩, cells, below, stack, shows⟩ := inside
  cases turns with
  | always op _ =>
    rw [execAlways given reached op, stack]
    exact goesOn there shows holds around typed dead rfl frames others
  | condition op =>
    obtain ⟨x, cells, rfl, -, fewer⟩ := shows.top
    rcases execConditional given reached op stack with same | same
    · rw [same]
      exact goesOn there fewer holds around typed dead rfl frames others
    · rw [same]
      exact goesOn (next (notAlways op)) fewer holds around typed dead rfl frames others

theorem Inside.returns {types : TypedNames} (inside : m.Inside base outer ⟨types, none, [e], false⟩)
    (setup : Setup) (op : i.opcode = .ret) (given : ∀ v, e.Admits v → gives v) :
    (m.exec setup i).Follows nodes gives base outer := by
  obtain ⟨⟨f, frames⟩, others, -, cells, below, stack, shows⟩ := inside
  obtain ⟨x, cells, rfl, admits, -⟩ := shows.top
  simp only [exec, op, returnFrom, frames, stack, List.cons_append, List.headD_cons]
  exact .returned rfl others rfl (given x.value admits)

namespace InBody

theorem exec (body : m.InBody nodes gives base outer) (setup : Setup)
    (found : m.current.instr? = some i) : (m.exec setup i).Follows nodes gives base outer := by
  obtain ⟨p, last, inside, dead, stands⟩ := body
  cases stands.follows found with
  | straight q effect next =>
    cases effect.1 with
    | sees sees flat => exact inside.straight setup sees flat dead next
    | blank op admits =>
      obtain ⟨frames, others, ⟨own, rest, holds, around, typed⟩, cells, below, stack, shows⟩ :=
        inside
      simp only [Machine.exec, op, stack]
      exact pushes shows admits holds around typed dead next frames others
    | returns op given => exact inside.returns setup op (given rfl)
  | jump q target jumps given reached there next =>
    obtain ⟨q, live⟩ := q
    obtain ⟨⟨turns, rfl⟩, -⟩ := jumps
    exact inside.jumps setup turns given reached dead there next
  | exit op exits => exact exits.elim

theorem step (body : m.InBody nodes gives base outer) (setup : Setup) :
    (m.step setup).Follows nodes gives base outer := by
  cases found : m.current.instr? with
  | some i =>
    have counted : InBody nodes gives base outer { m with steps := m.steps + 1 } := by
      obtain ⟨p, last, inside, dead, stands⟩ := body
      exact ⟨p, last, ⟨inside.frames, inside.outer, inside.vars, inside.stack⟩, dead, stands⟩
    unfold Machine.step
    simp only [found]
    split
    · exact .failed _ _
    · exact counted.exec setup found
  | none =>
    -- A run does not get to the end of the code: it is behind a return.
    obtain ⟨p, last, inside, dead, stands⟩ := body
    cases stands.ended found
    cases dead

theorem follow {setup : Setup} {fuel : Nat} {down : Machine}
    (body : m.InBody nodes gives base outer)
    (first : m.FirstDown setup (heightOf base outer) fuel down) :
    ∃ x below, down.current.stack = x :: below ∧ gives x.value := by
  induction fuel generalizing m with
  | zero => cases first.later
  | succ fuel ih =>
    obtain ⟨next, stepped, rest⟩ := first.next
    have follows := body.step setup
    rw [stepped] at follows
    cases follows with
    | inside body =>
      rcases rest with ⟨-, rfl⟩ | ⟨-, first⟩
      · obtain ⟨p, last, inside, -⟩ := body
        obtain ⟨f, frames⟩ := inside.frames
        have low := first.low
        rw [height, heightOf, frames, inside.outer, heightOf, List.length_cons] at low
        omega
      · exact ih body first
    | returned frames others stack given =>
      rcases rest with ⟨-, rfl⟩ | ⟨high, -⟩
      · exact ⟨_, _, stack, given⟩
      · rw [height, frames, others] at high
        omega

end InBody

end Machine

end Quill
