import Quill.Proofs.Flow.Nested
import Quill.Proofs.Typing.Points

/-! Pieces of code that lead from one point to another, and how they are put together: they are the
pieces of a flow of points. -/
namespace Quill

theorem Instr.Jumps.isJump {i : Instr} {p q : Point} (jumps : i.Jumps p q) : i.opcode.isJump := by
  cases jumps with
  | always op => rw [op]; rfl
  | branch op => rcases op with op | op <;> rw [op] <;> rfl

def typedFlow (final : Option Point) : Flow Point where
  effect i p q := i.Effect p q ∧ ∀ slot c, i.slot? slot = some c → Typed none c
  jumps i p q := i.Jumps p q
  exits p := final = some p

variable {final : Option Point} {code : Code} {points : Nat → Point} {p q r : Point}

theorem typedCovers : (typedFlow final).Covers code.length points 0 code ↔
    (∀ ip (i : Instr), code[ip]? = some i → i.Fits final code.length points ip) ∧
      ∀ i ∈ code, ∀ slot c, i.slot? slot = some c → Typed none c := by
  constructor
  · intro covers
    refine ⟨fun ip i found => ?_, fun i inside slot c holds => ?_⟩
    · cases covers.fits found with
      | straight effect => exact .straight effect.1
      | jump target jumps given reached next => exact .jump target jumps given reached next
      | exit op exits => exact .exit op exits
    · obtain ⟨ip, found⟩ := List.getElem?_of_mem inside
      cases covers.fits found with
      | straight effect => exact effect.2 slot c holds
      | jump _ jumps => exact absurd holds (jumpHasNoSlot jumps.isJump)
      | exit op => exact absurd holds (NestedFlow.exitHasNoSlot op)
  · rintro ⟨fits, inner⟩ ip i found
    rw [Nat.zero_add]
    cases fits ip i found with
    | straight effect => exact .straight ⟨effect, inner i (List.mem_of_getElem? found)⟩
    | jump target jumps given reached next => exact .jump target jumps given reached next
    | exit op ends => exact .exit op ends

theorem Flow.Piece.ending (piece : (typedFlow none).Piece code p q) :
    (typedFlow final).Piece code p q := by
  obtain ⟨points, start, stop, covers⟩ := piece
  refine ⟨points, start, stop, fun ip i found => ?_⟩
  cases covers ip i found with
  | straight effect => exact .straight effect
  | jump target jumps given reached next => exact .jump target jumps given reached next
  | exit _ exits => cases exits

theorem Flow.Piece.typed (piece : (typedFlow final).Piece code .start q)
    (ends : ∀ p, final = some p → q = p) : Typed final code := by
  obtain ⟨points, start, stop, covers⟩ := piece
  have covers : (typedFlow final).Covers code.length (glue code.length points fun _ => q) 0 code :=
    covers.moved (Nat.le_of_eq (Nat.zero_add _)) fun j inside => by rw [Nat.zero_add, glueLow inside]
  obtain ⟨fits, inner⟩ := typedCovers.mp covers
  refine .intro (glue code.length points fun _ => q) ?_ ?_ fits inner
  · rw [glueLow (Nat.zero_le _), start]
  · intro p final ip behind
    obtain ⟨j, rfl⟩ := Nat.exists_eq_add_of_le behind
    rw [glueMeet stop, ends p final]

structure Fragment (code : Code) (p q : Point) : Prop where
  points : ∃ points : Nat → Point, points 0 = p ∧ points code.length = q ∧
    ∀ ip (i : Instr), code[ip]? = some i → i.Fits none code.length points ip
  inner (i : Instr) : i ∈ code → ∀ slot c, i.slot? slot = some c → Typed none c

theorem fragmentPiece : Fragment code p q ↔ (typedFlow none).Piece code p q := by
  constructor
  · rintro ⟨⟨points, start, stop, fits⟩, inner⟩
    exact ⟨points, start, stop, typedCovers.mpr ⟨fits, inner⟩⟩
  · rintro ⟨points, start, stop, covers⟩
    obtain ⟨fits, inner⟩ := typedCovers.mp covers
    exact ⟨⟨points, start, stop, fits⟩, inner⟩

namespace Fragment

variable {a b : Code}

theorem nil : Fragment [] p p := fragmentPiece.mpr .nil

theorem one {i : Instr} (effect : i.Effect p q)
    (inner : ∀ slot c, i.slot? slot = some c → Typed none c) : Fragment [i] p q :=
  fragmentPiece.mpr (.one ⟨effect, inner⟩)

theorem append (first : Fragment a p q) (second : Fragment b q r) : Fragment (a ++ b) p r :=
  fragmentPiece.mpr ((fragmentPiece.mp first).append (fragmentPiece.mp second))

end Fragment

namespace Bound

variable {condition branch otherwise body : Code} {k : Known} {s : List Known} {b : Nat} {m : Mark}

theorem branchFragment (first : Fragment condition p ⟨k :: s, b⟩)
    (second : Fragment branch ⟨s, b⟩ ⟨s, b⟩) (short : (branchCode m condition branch).length < 2 ^ 31) :
    Fragment (branchCode m condition branch) p ⟨s, b⟩ :=
  fragmentPiece.mpr (Flow.branchPiece (fragmentPiece.mp first) (fragmentPiece.mp second)
    (fun _ => .branch (.inl rfl)) short)

theorem choiceFragment (first : Fragment condition p ⟨k :: s, b⟩)
    (second : Fragment branch ⟨s, b⟩ ⟨s, b⟩) (third : Fragment otherwise ⟨s, b⟩ ⟨s, b⟩)
    (short : (choiceCode m condition branch otherwise).length < 2 ^ 31) :
    Fragment (choiceCode m condition branch otherwise) p ⟨s, b⟩ :=
  fragmentPiece.mpr (Flow.choicePiece (fragmentPiece.mp first) (fragmentPiece.mp second)
    (fragmentPiece.mp third) (fun _ => .branch (.inl rfl)) (fun _ => .always rfl) short)

theorem loopFragment (first : Fragment condition ⟨s, b⟩ ⟨k :: s, b⟩)
    (second : Fragment body ⟨s, b⟩ ⟨s, b⟩) (short : (loopCode m condition body).length < 2 ^ 31) :
    Fragment (loopCode m condition body) ⟨s, b⟩ ⟨s, b⟩ :=
  fragmentPiece.mpr (Flow.loopPiece (fragmentPiece.mp first) (fragmentPiece.mp second)
    (fun _ => .branch (.inl rfl)) (fun _ => .always rfl) short)

end Bound

end Quill
