import Quill.Proofs.Evaluation.Pieces
import Mathlib.Algebra.Group.Nat.Defs

/-! Branches and loops perform those of direct evaluation: every jump lands where the piece that it
leads to begins. -/
namespace Quill

variable {setup : Setup} {code : Code} {below : List Cell} {m : Machine} {ip target : Nat} {p : Spot}
  {chain : Chain} {mark : Mark} {offset : Int}

namespace Machine.At

theorem jumps (at_ : m.At setup code below ip p chain)
    (found : code[ip]? = some (Bound.jump mark .jmp offset))
    (reaches : jumpTarget? ip (Int32.ofInt offset) code.length = some target)
    (low : (p.cells ++ below).length ≤ target) :
    ∃ next, m.run setup 1 = .running next ∧ next.At setup code below target p chain := by
  have runs := at_.one found
  simp only [Machine.exec, Bound.jump, Instr.opcode, Instr.operand, Machine.execJump,
    Operand.offset?, at_.here, at_.runs, reaches, at_.stack] at runs
  exact ⟨_, runs, at_.counted.moves at_.holds at_.depth low⟩

theorem branches {v : Value} {source : Option Nat}
    (at_ : m.At setup code below ip (p.push v source) chain)
    (found : code[ip]? = some (Bound.jump mark .jz offset))
    (reaches : jumpTarget? ip (Int32.ofInt offset) code.length = some target)
    (ahead : ip < target) : ∃ next, m.run setup 1 = .running next ∧
      next.At setup code below (if v.truthy then ip + 1 else target) p chain := by
  have runs := at_.one found
  have low := at_.low
  simp only [Machine.exec, Bound.jump, Instr.opcode, Instr.operand, Machine.execJump,
    Operand.offset?, at_.here, at_.runs, reaches, Machine.execBranch, at_.stack, Spot.push,
    List.cons_append] at runs
  simp only [at_.stack, Spot.push, List.cons_append, List.length_cons] at low
  cases truthy : v.truthy with
  | true =>
    simp only [truthy] at runs
    exact ⟨_, runs, at_.counted.goes at_.holds at_.depth (Nat.le_succ_of_le (Nat.le_succ _))⟩
  | false =>
    simp only [truthy] at runs
    exact ⟨_, runs, at_.counted.moves at_.holds at_.depth (by omega)⟩

end Machine.At

namespace Performs

variable {rounds : Nat} {condition first second : Code} {x : Eval Value} {y z : Eval Unit}
  {source : Option Nat}

theorem branch (asks : Performs setup rounds condition p x fun v => p.push v source)
    (does : Performs setup rounds first p y fun _ => p)
    (short : (Bound.branchCode mark condition first).length < 2 ^ 31) :
    Performs setup rounds (Bound.branchCode mark condition first) p
      (do if (← x).truthy then y) fun _ => p := by
  intro code below m ip chain has at_
  have bound := has.bound
  unfold Bound.branchCode at has short bound ⊢
  simp only [List.length_append, List.length_cons] at short bound ⊢
  have reaches : jumpTarget? (ip + condition.length) (Int32.ofInt first.length) code.length =
      some (ip + (condition.length + (first.length + 1))) :=
    jumpReaches (by omega) (by omega) (by omega) (by omega)
  refine (asks code below m ip chain has.first at_).bind fun v chain' next at' => ?_
  obtain ⟨next, ran, at'⟩ := at'.branches has.second.instr reaches (by omega)
  cases truthy : v.truthy with
  | true =>
    rw [truthy] at at'
    have rest := does code below _ _ chain' has.second.rest at'
    rw [show ip + condition.length + 1 + first.length =
      ip + (condition.length + (first.length + 1)) by omega] at rest
    exact rest.later ran
  | false =>
    rw [truthy] at at'
    exact .done ran at'

theorem choice (asks : Performs setup rounds condition p x fun v => p.push v source)
    (does : Performs setup rounds first p y fun _ => p)
    (other : Performs setup rounds second p z fun _ => p)
    (short : (Bound.choiceCode mark condition first second).length < 2 ^ 31) :
    Performs setup rounds (Bound.choiceCode mark condition first second) p
      (do if (← x).truthy then y else z) fun _ => p := by
  intro code below m ip chain has at_
  have bound := has.bound
  have low := at_.low
  rw [at_.stack] at low
  unfold Bound.choiceCode at has short bound ⊢
  rw [List.append_assoc, List.cons_append] at has
  simp only [List.length_append, List.length_cons] at short bound ⊢
  have reaches : jumpTarget? (ip + condition.length) (Int32.ofInt (first.length + 1)) code.length =
      some (ip + condition.length + 1 + first.length + 1) :=
    jumpReaches (by omega) (by omega) (by omega) (by omega)
  have skips : jumpTarget? (ip + condition.length + 1 + first.length) (Int32.ofInt second.length)
      code.length = some (ip + (condition.length + (first.length + 1) + (second.length + 1))) :=
    jumpReaches (by omega) (by omega) (by omega) (by omega)
  refine (asks code below m ip chain has.first at_).bind fun v chain' next at' => ?_
  obtain ⟨next, ran, at'⟩ := at'.branches has.second.instr reaches (by omega)
  cases truthy : v.truthy with
  | true =>
    rw [truthy] at at'
    have rest := does code below _ _ chain' has.second.rest.first at'
    refine (rest.onward fun _ _ _ at'' => ?_).later ran
    exact ⟨1, at''.jumps has.second.rest.second.instr skips (Nat.le_trans low (by omega))⟩
  | false =>
    rw [truthy] at at'
    have rest := other code below _ _ chain' has.second.rest.second.rest at'
    rw [show ip + condition.length + 1 + first.length + 1 + second.length =
      ip + (condition.length + (first.length + 1) + (second.length + 1)) by omega] at rest
    exact rest.later ran

theorem loop (asks : Performs setup rounds condition p x fun v => p.push v source)
    (does : Performs setup rounds first p y fun _ => p)
    (short : (Bound.loopCode mark condition first).length < 2 ^ 31) :
    Performs setup rounds (Bound.loopCode mark condition first) p (Eval.loop x y rounds)
      fun _ => p := by
  -- Each round ends with a jump back to the condition, which is a step at least.
  intro code below m ip chain has at_
  have bound := has.bound
  have low := at_.low
  rw [at_.stack] at low
  unfold Bound.loopCode at has short bound ⊢
  rw [List.append_assoc, List.cons_append] at has
  simp only [List.length_append, List.length_cons, List.length_nil] at short bound ⊢
  have leaves : jumpTarget? (ip + condition.length) (Int32.ofInt (first.length + 1)) code.length =
      some (ip + (condition.length + (first.length + 1) + (0 + 1))) :=
    jumpReaches (by omega) (by omega) (by omega) (by omega)
  have returns : jumpTarget? (ip + condition.length + 1 + first.length)
      (Int32.ofInt (-(condition.length + first.length + 2))) code.length = some ip :=
    jumpReaches (by omega) (by omega) (by omega) (by omega)
  -- The rounds that are left count down, while those inside keep all of theirs.
  have go (left : Nat) (enough : left ≤ rounds) : ∀ m chain, m.At setup code below ip p chain →
      Meets setup left m (fun _ chain' next => next.At setup code below
        (ip + (condition.length + (first.length + 1) + (0 + 1))) p chain')
        (Eval.loop x y left chain) := by
    induction left with
    | zero => exact fun m chain _ => .exhausted rfl
    | succ left ih =>
      intro m chain at_
      have condition := (asks code below m ip chain has.first at_).fewer enough
      refine condition.bind fun v chain' next at' => ?_
      obtain ⟨next, ran, at'⟩ := at'.branches has.second.instr leaves (by omega)
      cases truthy : v.truthy with
      | true =>
        rw [truthy] at at'
        have body := (does code below _ _ chain' has.second.rest.first at').fewer enough
        refine (body.bind fun _ chain'' next at'' => ?_).later ran
        obtain ⟨_, back, again⟩ := at''.jumps has.second.rest.second.instr returns low
        exact (ih (Nat.le_of_succ_le enough) _ _ again).counted back (Nat.le_refl 1)
      | false =>
        rw [truthy] at at'
        exact .done ran at'
  exact go rounds (Nat.le_refl _) m chain at_

end Performs

end Quill
