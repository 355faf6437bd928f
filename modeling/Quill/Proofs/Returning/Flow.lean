import Quill.Proofs.Returning.Own

/-! What flows through the body of a function: what is known of variables and of the stack, and
whether a run may get there at all. Behind a return it may be anything. -/
namespace Quill

structure BodyPoint where
  view : View
  live : Bool

/-- From before an instruction to behind it. What is returned is as `gives` tells, if it is
returned at all. -/
inductive Instr.Acts (nodes : List Bound.Node) (gives : Value → Prop) (i : Instr) :
    BodyPoint → BodyPoint → Prop where
  | sees {p q : View} {live : Bool} (sees : i.Sees nodes p q) (flat : i.opcode.isFlat) :
      Acts nodes gives i ⟨p, live⟩ ⟨q, live⟩
  | blank {types : TypedNames} {e : Bound.Expr} {live : Bool} (op : i.opcode = .pushNone)
      (admits : e.Admits .none) :
      Acts nodes gives i ⟨⟨types, none, [], false⟩, live⟩ ⟨⟨types, none, [e], false⟩, live⟩
  | returns {types : TypedNames} {e : Bound.Expr} {live : Bool} {b : BodyPoint}
      (op : i.opcode = .ret) (given : live → ∀ v, e.Admits v → gives v) :
      Acts nodes gives i ⟨⟨types, none, [e], false⟩, live⟩ b

def bodies (nodes : List Bound.Node) (gives : Value → Prop) : NestedFlow BodyPoint where
  effect := Instr.Acts nodes gives
  jumps i a b := i.Turns a.view b.view ∧ a.live = b.live
  exits _ := False
  enters _ _ _ _ _ _ := False

variable {nodes : List Bound.Node} {gives : Value → Prop} {i : Instr} {a b : BodyPoint}
  {p q r : View} {code : Code}

theorem flatHasNoSlot (flat : i.opcode.isFlat) (slot : Nat) : i.slot? slot = none := by
  obtain ⟨op, x, source⟩ := i
  cases op <;> first | rfl | cases flat

theorem Instr.Acts.ofSeen (acts : i.Acts nodes gives a b) (blank : i.opcode ≠ .pushNone)
    (returns : i.opcode ≠ .ret) :
    i.Sees nodes a.view b.view ∧ i.opcode.isFlat ∧ a.live = b.live := by
  cases acts with
  | sees sees flat => exact ⟨sees, flat, rfl⟩
  | blank op _ => exact (blank op).elim
  | returns op _ => exact (returns op).elim

theorem Instr.Acts.slotless (acts : i.Acts nodes gives a b) : (bodies nodes gives).Holds i a b := by
  have flat : i.opcode.isFlat := by
    cases acts with
    | sees _ flat => exact flat
    | blank op _ => rw [op]; rfl
    | returns op _ => rw [op]; rfl
  intro slot c found
  rw [flatHasNoSlot flat] at found
  cases found

theorem bodiesFold : (bodies nodes gives).Folds where
  jumpsOnly jumps :=
    have folds : (views nodes).Folds := viewsFold
    folds.jumpsOnly jumps.1
  jumpsSame jumps same :=
    have folds : (views nodes).Folds := viewsFold
    ⟨folds.jumpsSame jumps.1 same, jumps.2⟩
  effectOnly effect := by
    cases effect with
    | sees sees _ => exact sees.notJump
    | blank op _ => rw [op]; rfl
    | returns op _ => rw [op]; rfl
  binary := by
    rintro left right op p q r s a b v x leftPush leftConstant leftEffect rightPush rightConstant
      rightEffect binary given opEffect folding
    obtain ⟨lefts, -, live⟩ := leftEffect.ofSeen (by rw [leftPush]; nofun) (by rw [leftPush]; nofun)
    obtain ⟨rights, -, live'⟩ :=
      rightEffect.ofSeen (by rw [rightPush]; nofun) (by rw [rightPush]; nofun)
    obtain ⟨ops, -, live''⟩ := opEffect.ofSeen (by rintro op; rw [op] at binary; cases binary)
      (by rintro op; rw [op] at binary; cases binary)
    obtain ⟨p, here⟩ := p
    obtain ⟨s, there⟩ := s
    obtain rfl : here = there := live.trans (live'.trans live'')
    exact .sees (viewsFold.binary leftPush leftConstant lefts rightPush rightConstant rights binary
      given ops folding) rfl
  unary := by
    rintro operand op p q r a v x push constant operandEffect unary given opEffect folding
    obtain ⟨operands, -, live⟩ := operandEffect.ofSeen (by rw [push]; nofun) (by rw [push]; nofun)
    obtain ⟨ops, -, live'⟩ := opEffect.ofSeen (by rintro op; rw [op] at unary; cases unary)
      (by rintro op; rw [op] at unary; cases unary)
    obtain ⟨p, here⟩ := p
    obtain ⟨r, there⟩ := r
    obtain rfl : here = there := live.trans live'
    exact .sees (viewsFold.unary push constant operands unary given ops folding) rfl
  effectOptimized effect := by
    cases effect with
    | sees sees flat => exact .sees sees.optimized ((optimizeOpcode _).symm ▸ flat)
    | blank op admits => exact .blank ((optimizeOpcode _).trans op) admits
    | returns op given => exact .returns ((optimizeOpcode _).trans op) given
  entersOptimized := id

def LeadsOn (nodes : List Bound.Node) (gives : Value → Prop) (code : Code) (falls : Bool)
    (p q : View) : Prop :=
  ∀ live after, (falls → after = live) →
    (bodies nodes gives).closed.Piece code ⟨p, live⟩ ⟨q, after⟩

theorem seenPiece (piece : (views nodes).closed.Piece code p q) (flat : Flat code) (live : Bool) :
    (bodies nodes gives).closed.Piece code ⟨p, live⟩ ⟨q, live⟩ := by
  obtain ⟨points, rfl, rfl, covers⟩ := piece
  refine ⟨fun j => ⟨points j, live⟩, rfl, rfl, fun ip i found => ?_⟩
  have plain := flat i (List.mem_of_getElem? found)
  cases covers ip i found with
  | straight effect =>
    have acts : i.Acts nodes gives ⟨points (0 + ip), live⟩ ⟨points (0 + ip + 1), live⟩ :=
      .sees effect.1 plain
    exact .straight ⟨acts, acts.slotless⟩
  | jump target jumps given reached next =>
    exact .jump target ⟨⟨jumps.1, rfl⟩, jumps.2⟩ given reached fun other => by rw [next other]
  | exit op _ => rw [op] at plain; cases plain

namespace LeadsOn

variable {first second : Code} {falls falls' : Bool} {m : Mark} {e : Bound.Expr}
  {types : TypedNames}

theorem seen (piece : (views nodes).closed.Piece code p q) (flat : Flat code) :
    LeadsOn nodes gives code true p q := by
  intro live after same
  rw [same rfl]
  exact seenPiece piece flat live

theorem append (leads : LeadsOn nodes gives first falls p q)
    (leads' : LeadsOn nodes gives second falls' q r) :
    LeadsOn nodes gives (first ++ second) (falls && falls') p r := by
  intro live after same
  cases falls with
  | true => exact (leads live live fun _ => rfl).append (leads' live after same)
  | false => exact (leads live after nofun).append (leads' after after fun _ => rfl)

theorem branch {condition branch : Code} {p' : View}
    (conditions : (views nodes).closed.Piece condition p p') (flat : Flat condition)
    (turns : ∀ offset, (Bound.jump m .jz offset).Turns p' r)
    (branches : LeadsOn nodes gives branch falls r r)
    (short : (Bound.branchCode m condition branch).length < 2 ^ 31) :
    LeadsOn nodes gives (Bound.branchCode m condition branch) true p r := by
  intro live after same
  rw [same rfl]
  exact Flow.branchPiece (seenPiece conditions flat live) (branches live live fun _ => rfl)
    (fun offset => ⟨⟨turns offset, rfl⟩, rfl⟩) short

theorem choice {condition branch otherwise : Code} {p' : View}
    (conditions : (views nodes).closed.Piece condition p p') (flat : Flat condition)
    (turns : ∀ offset, (Bound.jump m .jz offset).Turns p' r) (used : r.cue = none)
    (branches : LeadsOn nodes gives branch falls r r)
    (others : LeadsOn nodes gives otherwise falls' r r)
    (short : (Bound.choiceCode m condition branch otherwise).length < 2 ^ 31) :
    LeadsOn nodes gives (Bound.choiceCode m condition branch otherwise) (falls || falls') p r := by
  intro live after same
  exact Flow.choicePiece (seenPiece conditions flat live)
    (branches live after fun falls => same (by rw [falls, Bool.true_or]))
    (others live after fun falls => same (by rw [falls, Bool.or_true]))
    (fun offset => ⟨⟨turns offset, rfl⟩, rfl⟩) (fun _ => ⟨⟨.always rfl used, rfl⟩, rfl⟩) short

theorem loop {condition body : Code} {p' : View}
    (conditions : (views nodes).closed.Piece condition r p') (flat : Flat condition)
    (turns : ∀ offset, (Bound.jump m .jz offset).Turns p' r) (used : r.cue = none)
    (bodies' : LeadsOn nodes gives body falls r r)
    (short : (Bound.loopCode m condition body).length < 2 ^ 31) :
    LeadsOn nodes gives (Bound.loopCode m condition body) true r r := by
  intro live after same
  rw [same rfl]
  exact Flow.loopPiece (seenPiece conditions flat live) (bodies' live live fun _ => rfl)
    (fun offset => ⟨⟨turns offset, rfl⟩, rfl⟩) (fun _ => ⟨⟨.always rfl used, rfl⟩, rfl⟩) short

theorem returned (leads : LeadsOn nodes gives code true p ⟨types, none, [e], false⟩)
    (given : ∀ v, e.Admits v → gives v) :
    LeadsOn nodes gives (code ++ [Bound.instr m .ret]) false p q := by
  -- A return leads anywhere.
  intro live after _
  have acts : (Bound.instr m .ret).Acts nodes gives ⟨⟨types, none, [e], false⟩, live⟩ ⟨q, after⟩ :=
    .returns rfl fun _ => given
  exact (leads live live fun _ => rfl).append (.one ⟨acts, acts.slotless⟩)

end LeadsOn

end Quill
