import Quill.Proofs.Folding.Agreement
import Quill.Proofs.Typing.Steps

/-! Sessions, in which one program runs after another, or the same one again. New code is loaded as a
unit of its own, so that all functions in the scopes are of units before the next one. -/
namespace Quill

def ScopeHeap.OlderThan (unit : Nat) (h : ScopeHeap) : Prop :=
  h.Alike (fun r s => r = s ∧ r.place.unit < unit) h

theorem ScopeHeap.OlderThan.freeOf {h : ScopeHeap} {unit : Nat} (older : h.OlderThan unit)
    {units : List Nat} (later : ∀ other ∈ units, unit ≤ other) : h.FreeOf units :=
  ScopeHeap.weakenAlike (fun r _ old => ⟨old.1, fun held => absurd (later _ held) (by omega)⟩) older

def Transition.machine : Transition → Machine
  | .running m | .ended m | .failed m _ => m

def Transition.Counts (m : Machine) (t : Transition) : Prop := m.nextId ≤ t.machine.nextId

variable {setup : Setup}

namespace Machine

theorem evaluateCounts (m : Machine) (r : Routine) (scope : Nat) (pending : Pending) :
    (m.evaluate setup r scope pending).Counts m := by
  unfold evaluate
  dsimp only
  split <;> exact Nat.le_refl _

theorem pushFrameCounts (m : Machine) (c : Closure) (scope : Nat) :
    (m.pushFrame setup c scope).Counts m := by
  unfold pushFrame
  dsimp only
  split <;> exact Nat.le_refl _

theorem invokeCounts (m : Machine) (c : Closure) (scope : Nat) :
    (m.invoke setup c scope).Counts m := by
  unfold invoke
  dsimp only
  split
  · split
    · exact Nat.le_refl _
    · exact m.pushFrameCounts c scope
  · exact m.pushFrameCounts c scope

theorem fillParamsCounts (m : Machine) (c : Closure) (scope : Nat)
    (slots : List (ClosureParam × Option Value)) : (m.fillParams setup c scope slots).Counts m := by
  induction slots generalizing m with
  | nil => exact m.invokeCounts c scope
  | cons slot rest ih =>
    obtain ⟨p, v⟩ := slot
    cases v with
    | some v => exact ih { m with scopes := m.scopes.define scope p.name v }
    | none =>
      rw [fillParams]
      cases p.default with
      | some r => exact m.evaluateCounts r scope _
      | none => exact Nat.le_refl _

theorem callTopCounts (m : Machine) (args : List Argument) : (m.callTop setup args).Counts m := by
  unfold callTop
  split
  · exact Nat.le_refl _
  · rename_i callee rest stack
    dsimp only
    split
    · rename_i c called
      unfold callClosure
      dsimp only
      split
      · exact fillParamsCounts { m.withStack rest with scopes := (m.scopes.child c.scope).2 } c _ _
      · exact Nat.le_refl _
    · unfold callIntrinsic
      dsimp only
      split <;> exact Nat.le_refl _
    · exact Nat.le_refl _

theorem nextArgumentCounts (m : Machine) (done : List Argument) (left : List Operand) :
    (m.nextArgument setup done left).Counts m := by
  unfold nextArgument
  split
  · exact m.callTopCounts done
  · exact m.evaluateCounts _ _ _
  · exact Nat.le_refl _

theorem nextPropertyCounts (m : Machine) (index : Nat) (entries : List Entry)
    (left : List Operand) : (m.nextProperty setup index entries left).Counts m := by
  unfold nextProperty
  split
  · exact Nat.le_succ _
  · exact m.evaluateCounts _ _ _
  · exact Nat.le_refl _

theorem resumeCounts (m : Machine) (v : Value) (pending : Pending) :
    (m.resume setup v pending).Counts m := by
  cases pending with
  | argument done name rest => exact m.nextArgumentCounts _ rest
  | default c scope name rest =>
    exact fillParamsCounts { m with scopes := m.scopes.define scope name v } c scope rest
  | objectKey index entries code rest =>
    unfold resume
    dsimp only
    split
    · exact m.evaluateCounts _ _ _
    · exact Nat.le_refl _
  | objectValue index entries key rest => exact m.nextPropertyCounts _ _ rest

theorem endLevelCounts (m : Machine) : (m.endLevel setup).Counts m := by
  unfold endLevel
  split
  · exact Nat.le_refl _
  · rename_i w outer _
    exact resumeCounts { m with current := peakBelow w.level m.current, outer := outer } _ _

theorem returnFromCounts (m : Machine) : m.returnFrom.Counts m := by
  unfold returnFrom
  dsimp only
  split <;> exact Nat.le_refl _

theorem popNameCounts (m : Machine) (op : Opcode) {go : String → List Cell → Transition}
    (goes : ∀ name rest, (go name rest).Counts m) : (m.popName setup op go).Counts m := by
  unfold popName
  split
  · exact Nat.le_refl _
  · exact goes _ _
  · exact Nat.le_refl _

theorem popAssignmentCounts (m : Machine) (op : Opcode)
    {go : String → Value → List Cell → Transition}
    (goes : ∀ name v rest, (go name v rest).Counts m) : (m.popAssignment setup op go).Counts m := by
  refine m.popNameCounts op fun name rest => ?_
  split
  · exact Nat.le_refl _
  · exact goes _ _ _

theorem execJumpCounts (m : Machine) (i : Instr) : (m.execJump setup i).Counts m := by
  have branches (op : Opcode) (target : Nat) (taken : Value → Bool) :
      (m.execBranch setup op target taken).Counts m := by
    unfold execBranch
    repeat' split
    all_goals exact Nat.le_refl _
  unfold execJump
  split
  · exact Nat.le_refl _
  · split
    · exact Nat.le_refl _
    · split
      · exact Nat.le_refl _
      · exact branches _ _ _
      · exact branches _ _ _

theorem execCounts (m : Machine) (i : Instr) : (m.exec setup i).Counts m := by
  have binary (op : Opcode) : (m.execBinary setup op).Counts m := by
    unfold execBinary
    repeat' split
    all_goals exact Nat.le_refl _
  have unary (op : Opcode) : (m.execUnary setup op).Counts m := by
    unfold execUnary
    repeat' split
    all_goals exact Nat.le_refl _
  unfold exec
  cases op : i.opcode with
  | exit => exact m.endLevelCounts
  | push => dsimp only; split <;> exact Nat.le_refl _
  | pushNone => exact Nat.le_refl _
  | pushObject =>
    dsimp only
    split
    · exact m.nextPropertyCounts _ _ _
    · exact Nat.le_refl _
  | pop => dsimp only; split <;> exact Nat.le_refl _
  | load =>
    refine m.popNameCounts .load fun name rest => ?_
    split <;> exact Nat.le_refl _
  | store => exact m.popAssignmentCounts .store fun _ _ _ => Nat.le_refl _
  | define => exact m.popAssignmentCounts .define fun _ _ _ => Nat.le_refl _
  | getMember =>
    dsimp only
    unfold execGetMember
    repeat' split
    all_goals exact Nat.le_refl _
  | jmp => exact m.execJumpCounts i
  | jz => exact m.execJumpCounts i
  | jnz => exact m.execJumpCounts i
  | proc =>
    dsimp only
    unfold execProc
    split
    · exact Nat.le_succ _
    · exact Nat.le_refl _
  | call =>
    dsimp only
    split
    · exact m.nextArgumentCounts _ _
    · exact Nat.le_refl _
  | ret => exact m.returnFromCounts
  | beginScope => exact Nat.le_refl _
  | endScope => exact Nat.le_refl _
  | neg => exact unary _
  | pos => exact unary _
  | not => exact unary _
  | bnot => exact unary _
  | inc => exact unary _
  | dec => exact unary _
  | _ => exact binary _

theorem stepCounts (m : Machine) : (m.step setup).Counts m := by
  cases found : m.current.instr? with
  | some i =>
    rcases stepCases setup found with same | ⟨fault, -, same⟩
    · rw [same]
      exact execCounts { m with steps := m.steps + 1 } i
    · rw [same]
      exact Nat.le_refl _
  | none =>
    by_cases free : m.current.frames = []
    · rw [stepEnds found free]
      exact m.endLevelCounts
    · rw [stepReturns found free]
      exact returnFromCounts (m.withStack (⟨.none, none⟩ :: m.current.stack))

theorem runCounts (m : Machine) (fuel : Nat) : (m.run setup fuel).Counts m := by
  induction fuel generalizing m with
  | zero => exact Nat.le_refl _
  | succ fuel ih =>
    have first : (m.step setup).Counts m := m.stepCounts
    rw [run]
    cases stepped : m.step setup with
    | running next =>
      rw [stepped] at first
      exact Nat.le_trans first (ih next)
    | ended _ => rw [stepped] at first; exact first
    | failed _ _ => rw [stepped] at first; exact first

def sameLink (setup : Setup) (P : Routine → Prop) : Link :=
  .within setup (fun r s => r = s ∧ P r) (fun _ _ ip ip' => ip = ip') fun _ => rfl

theorem sameLockstep (setup : Setup) (P : Routine → Prop) : (sameLink setup P).Lockstep where
  frames := rfl
  reuses := rfl
  places := by
    rintro _ _ _ _ ⟨rfl, -⟩ ⟨rfl, -⟩
    exact Iff.rfl

def Inherited (P : Routine → Prop) : Prop :=
  ∀ (r : Routine) (ip : Nat) (i : Instr), P r → r.code[ip]? = some i →
    ∀ slot c, i.slot? slot = some c → P ⟨c, r.place.inner ip slot⟩

variable {P : Routine → Prop}

theorem sameStep (inherited : Inherited P) {m : Machine} (alike : m.Alike (sameLink setup P) m) :
    Transition.Alike (sameLink setup P) (m.step setup) (m.step setup) := by
  have lockstep := sameLockstep setup P
  cases found : m.current.instr? with
  | none => exact alike.lockstepEnd lockstep found found
  | some i =>
    have counted : Busy (sameLink setup P) { m with steps := m.steps + 1 }
        { m with steps := m.steps + 1 } := { alike with aligned := ⟨rfl, rfl, rfl⟩ }
    rcases stepCases setup found with same | ⟨fault, -, same⟩
    · rw [same]
      by_cases returns : i.opcode = .ret
      · rw [execReturn returns]
        exact counted.returnFrom lockstep
      · refine counted.exec (lockstepInvokes lockstep) ?_ (fun _ => trivial) returns
        exact instrSame i rfl rfl rfl
          (fun k c holds => ⟨rfl, inherited _ _ i alike.current.routine.2 found k c holds⟩)
          fun _ => rfl
    · rw [same]
      exact counted.fail fault

theorem sameRun (inherited : Inherited P) {m : Machine} (alike : m.Alike (sameLink setup P) m)
    (fuel : Nat) :
    Machine.Alike (sameLink setup P) (m.run setup fuel).machine (m.run setup fuel).machine := by
  induction fuel generalizing m with
  | zero => exact alike
  | succ fuel ih =>
    have first := sameStep inherited alike
    rw [run]
    generalize m.step setup = t at first ⊢
    cases t with
    | running next =>
      cases first with
      | running alike _ => exact ih alike
    | ended next =>
      cases first with
      | ended alike => exact alike
    | failed next e =>
      cases first with
      | failed _ alike _ _ => exact alike
      | leftExcused _ excused => exact excused.elim
      | rightExcused _ excused => exact excused.elim

theorem runOlder {m : Machine} (older : m.scopes.OlderThan m.nextId) {unit : Nat}
    (given : unit < m.nextId) (code : Code) (fuel : Nat) :
    ((m.loadAs unit code).run setup fuel).machine.scopes.OlderThan
      ((m.loadAs unit code).run setup fuel).machine.nextId := by
  have loaded : (m.loadAs unit code).Alike (sameLink setup fun r => r.place.unit < m.nextId)
      (m.loadAs unit code) :=
    { scopes := older
      output := rfl
      diagnostics := .nil
      nextId := rfl
      current := ⟨.nil, rfl, ⟨rfl, given⟩, .nil, .inr rfl⟩
      outer := .nil }
  have counts : m.nextId ≤ ((m.loadAs unit code).run setup fuel).machine.nextId :=
    (m.loadAs unit code).runCounts fuel
  exact ScopeHeap.weakenAlike (fun _ _ old => ⟨old.1, Nat.lt_of_lt_of_le old.2 counts⟩)
    (sameRun (fun _ _ _ before _ _ _ _ => before) loaded fuel).scopes

inductive Reached : Machine → Prop where
  | new : Reached .new
  | ran {m : Machine} (setup : Setup) (code : Code) (fuel : Nat) (before : Reached m) :
      Reached ((m.load code).run setup fuel).machine
  | again {m : Machine} (setup : Setup) {unit : Nat} (given : unit < m.nextId) (code : Code)
      (fuel : Nat) (before : Reached m) : Reached ((m.loadAs unit code).run setup fuel).machine
  | defined {m : Machine} (name : String) {v : Value} (plain : v.Plain) (before : Reached m) :
      Reached { m with scopes := m.scopes.define ScopeHeap.global name v }

theorem reachedOlder {m : Machine} (reached : Reached m) : m.scopes.OlderThan m.nextId := by
  induction reached with
  | new => exact newAlike _
  | @ran m setup code fuel _ older =>
    have counted : ScopeHeap.OlderThan (m.nextId + 1) m.scopes :=
      ScopeHeap.weakenAlike (fun _ _ old => ⟨old.1, Nat.lt_succ_of_lt old.2⟩) older
    exact runOlder (m := { m with nextId := m.nextId + 1 }) counted (Nat.lt_succ_self _) code fuel
  | again setup given code fuel _ older => exact runOlder older given code fuel
  | defined name plain _ older => exact ScopeHeap.defineAlike _ name (.plain _ plain) older

/-- In every session no function has code of a unit that was not given out yet. -/
theorem reachedFree {m : Machine} (reached : Reached m) {units : List Nat}
    (later : ∀ unit ∈ units, m.nextId ≤ unit) : m.scopes.FreeOf units :=
  (reachedOlder reached).freeOf later

end Machine

end Quill
