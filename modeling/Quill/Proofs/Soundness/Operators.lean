import Quill.Proofs.Soundness.Types
import Quill.Value.Apply

/-! Operators keep to their rows: for operands that a row takes they compute what the row says, but
for a division by zero. -/
namespace Quill

def Value.Serves (v : Value) : Ty → Prop
  | .any => True
  | .union types => ∃ type ∈ types, v.HasType type
  | type => v.HasType type

inductive Ty.OfOperand : Ty → Prop where
  | any : OfOperand .any
  | primitive (p : Primitive) : OfOperand (.primitive p)
  | union (ps : List Primitive) : OfOperand (.union (ps.map .primitive))

def Computes (type : Ty) : Except ApplyError Value → Prop
  | .ok v => v.HasType type
  | .error e => e = .divisionByZero

namespace Value

variable {v a b : Value}

theorem HasType.serves {type operand : Ty} (has : v.HasType type.widen) (simple : type.Simple)
    (takes : operand.OfOperand) (fits : type.assignableTo operand = true) : v.Serves operand := by
  cases takes with
  | any => trivial
  | primitive p => exact has.fits simple (.primitive p) fits
  | union ps =>
    obtain ⟨t, inside, fits⟩ := (Ty.unionRight simple.core.single).mp fits
    obtain ⟨p, -, rfl⟩ := List.mem_map.mp inside
    exact ⟨_, inside, has.fits simple (.primitive p) fits⟩

theorem HasType.int_iff : v.HasType .int ↔ ∃ n, v = .int n := by
  refine ⟨fun has => ?_, fun ⟨n, same⟩ => same ▸ .int n⟩
  cases has with
  | int n => exact ⟨n, rfl⟩
  | intrinsic signature => cases signature

theorem HasType.bool_iff : v.HasType .bool ↔ ∃ b, v = .bool b := by
  refine ⟨fun has => ?_, fun ⟨b, same⟩ => same ▸ .bool b⟩
  cases has with
  | bool b => exact ⟨b, rfl⟩
  | intrinsic signature => cases signature

theorem HasType.float_iff : v.HasType .float ↔ ∃ x, v = .float x := by
  refine ⟨fun has => ?_, fun ⟨x, same⟩ => same ▸ .float x⟩
  cases has with
  | float x => exact ⟨x, rfl⟩
  | intrinsic signature => cases signature

theorem HasType.string_iff : v.HasType .string ↔ ∃ s, v = .str s := by
  refine ⟨fun has => ?_, fun ⟨s, same⟩ => same ▸ .string s⟩
  cases has with
  | string s => exact ⟨s, rfl⟩
  | intrinsic signature => cases signature

theorem HasType.char_iff : v.HasType .char ↔ ∃ c, v = .char c := by
  refine ⟨fun has => ?_, fun ⟨c, same⟩ => same ▸ .char c⟩
  cases has with
  | char c => exact ⟨c, rfl⟩
  | intrinsic signature => cases signature

theorem servesNumber (serves : v.Serves Operators.number) : ∃ x, v.number? = some x := by
  obtain ⟨type, inside, has⟩ := serves
  simp only [List.mem_cons, List.not_mem_nil, or_false] at inside
  rcases inside with rfl | rfl
  · obtain ⟨n, rfl⟩ := HasType.int_iff.mp has
    exact ⟨_, rfl⟩
  · obtain ⟨x, rfl⟩ := HasType.float_iff.mp has
    exact ⟨_, rfl⟩

theorem servesText (serves : v.Serves Operators.text) : ∃ s, v.text? = some s := by
  obtain ⟨type, inside, has⟩ := serves
  simp only [List.mem_cons, List.not_mem_nil, or_false] at inside
  rcases inside with rfl | rfl
  · obtain ⟨s, rfl⟩ := HasType.string_iff.mp has
    exact ⟨_, rfl⟩
  · obtain ⟨c, rfl⟩ := HasType.char_iff.mp has
    exact ⟨_, rfl⟩

end Value

def BinaryRow.Sound (row : BinaryRow) : Prop :=
  ∀ a b, a.Serves row.left → b.Serves row.right →
    Computes row.result (Value.binary row.opcode a b)

def UnaryRow.Sound (row : UnaryRow) : Prop :=
  ∀ v, v.Serves row.operand → Computes row.result (Value.unary row.opcode v)

def StepRow.Sound (row : StepRow) : Prop :=
  ∀ v, v.Serves row.operand → Computes row.operand (Value.unary row.opcode v)

namespace Operators

theorem rowOperands : ∀ row ∈ binaryTable, row.left.OfOperand ∧ row.right.OfOperand := by
  have numbers : number.OfOperand ∧ number.OfOperand :=
    ⟨.union [.int, .float], .union [.int, .float]⟩
  have texts : text.OfOperand ∧ text.OfOperand := ⟨.union [.string, .char], .union [.string, .char]⟩
  have same (p : Primitive) : (Ty.primitive p).OfOperand ∧ (Ty.primitive p).OfOperand :=
    ⟨.primitive p, .primitive p⟩
  have anything : Ty.any.OfOperand ∧ Ty.any.OfOperand := ⟨.any, .any⟩
  simp only [binaryTable, List.forall_mem_cons, List.not_mem_nil, false_imp_iff, implies_true, numbers,
    texts, same, anything, and_self]

section
variable {op : BinaryOp} {code : Opcode} {result : Ty}

theorem numbersSound (f : Float → Float → Value)
    (computes : ∀ a b x y, a.number? = some x → b.number? = some y →
      Value.binary code a b = .ok (f x y)) (given : ∀ x y, (f x y).HasType result) :
    BinaryRow.Sound ⟨op, code, number, number, result⟩ := by
  intro a b left right
  obtain ⟨x, left⟩ := Value.servesNumber left
  obtain ⟨y, right⟩ := Value.servesNumber right
  rw [computes a b x y left right]
  exact given x y

theorem integersSound (f : Int64 → Int64 → Int64)
    (computes : ∀ m n, Value.binary code (.int m) (.int n) = .ok (.int (f m n))) :
    BinaryRow.Sound ⟨op, code, .int, .int, .int⟩ := by
  intro a b left right
  obtain ⟨m, rfl⟩ := Value.HasType.int_iff.mp left
  obtain ⟨n, rfl⟩ := Value.HasType.int_iff.mp right
  rw [computes]
  exact .int _

theorem booleansSound (f : Bool → Bool → Bool)
    (computes : ∀ a b, Value.binary code (.bool a) (.bool b) = .ok (.bool (f a b))) :
    BinaryRow.Sound ⟨op, code, .bool, .bool, .bool⟩ := by
  intro a b left right
  obtain ⟨m, rfl⟩ := Value.HasType.bool_iff.mp left
  obtain ⟨n, rfl⟩ := Value.HasType.bool_iff.mp right
  rw [computes]
  exact .bool _

theorem textsSound : BinaryRow.Sound ⟨.add, .add, text, text, .string⟩ := by
  intro a b left right
  obtain ⟨x, left⟩ := Value.servesText left
  obtain ⟨y, right⟩ := Value.servesText right
  simp only [Value.binary, left, right]
  exact .string _

theorem quotientsSound : BinaryRow.Sound ⟨.intDiv, .idiv, number, number, .int⟩ := by
  intro a b left right
  obtain ⟨x, left⟩ := Value.servesNumber left
  obtain ⟨y, right⟩ := Value.servesNumber right
  change Computes .int (Value.integerQuotient a b)
  unfold Value.integerQuotient
  split
  · split
    · rfl
    · exact .int _
  · simp only [left, right]
    split
    · rfl
    · exact .int _

theorem equalSound : BinaryRow.Sound ⟨.eq, .eq, .any, .any, .bool⟩ := fun _ _ _ _ => .bool _

theorem unequalSound : BinaryRow.Sound ⟨.notEq, .ne, .any, .any, .bool⟩ := fun _ _ _ _ => .bool _

end

theorem numberText {v : Value} {x : Float} (number : v.number? = some x) : v.text? = none := by
  cases v <;> first | rfl | cases number

theorem binarySound : ∀ row ∈ binaryTable, row.Sound := by
  simp only [binaryTable, List.forall_mem_cons]
  refine ⟨textsSound, numbersSound (fun x y => .float (x + y)) ?_ fun _ _ => .float _,
    numbersSound (fun x y => .float (x - y)) ?_ fun _ _ => .float _,
    numbersSound (fun x y => .float (x * y)) ?_ fun _ _ => .float _,
    numbersSound (fun x y => .float (x / y)) ?_ fun _ _ => .float _,
    numbersSound (fun x y => .float (Number.remainder x y)) ?_ fun _ _ => .float _,
    numbersSound (fun x y => .float (x.pow y)) ?_ fun _ _ => .float _, quotientsSound,
    integersSound (· &&& ·) fun _ _ => rfl, integersSound (· ||| ·) fun _ _ => rfl,
    integersSound (· ^^^ ·) fun _ _ => rfl, integersSound (shift (· <<< ·)) fun _ _ => rfl,
    integersSound (shift (· >>> ·)) fun _ _ => rfl, booleansSound (· && ·) fun _ _ => rfl,
    booleansSound (· || ·) fun _ _ => rfl, equalSound, unequalSound,
    numbersSound (fun x y => .bool (decide (x < y))) ?_ fun _ _ => .bool _,
    numbersSound (fun x y => .bool (decide (x ≤ y))) ?_ fun _ _ => .bool _,
    numbersSound (fun x y => .bool (decide (y < x))) ?_ fun _ _ => .bool _,
    numbersSound (fun x y => .bool (decide (y ≤ x))) ?_ fun _ _ => .bool _, nofun⟩
  all_goals
    intro a b x y left right
    simp only [Value.binary, numberText left, left, right]

theorem integersMapped {code : Opcode} (f : Int64 → Int64)
    (computes : ∀ n, Value.unary code (.int n) = .ok (.int (f n))) (v : Value) (serves : v.Serves .int) :
    Computes .int (Value.unary code v) := by
  obtain ⟨n, rfl⟩ := Value.HasType.int_iff.mp serves
  rw [computes]
  exact .int _

theorem floatsMapped {code : Opcode} (f : Float → Float)
    (computes : ∀ x, Value.unary code (.float x) = .ok (.float (f x))) (v : Value)
    (serves : v.Serves .float) : Computes .float (Value.unary code v) := by
  obtain ⟨x, rfl⟩ := Value.HasType.float_iff.mp serves
  rw [computes]
  exact .float _

theorem negationSound : UnaryRow.Sound ⟨.not, .not, .bool, .bool⟩ := by
  intro v serves
  obtain ⟨b, rfl⟩ := Value.HasType.bool_iff.mp serves
  exact .bool _

theorem unarySound : ∀ row ∈ unaryTable, row.Sound := by
  simp only [unaryTable, List.forall_mem_cons]
  exact ⟨integersMapped (-·) fun _ => rfl, floatsMapped (-·) fun _ => rfl,
    integersMapped id fun _ => rfl, floatsMapped id fun _ => rfl, negationSound,
    integersMapped (~~~·) fun _ => rfl, nofun⟩

theorem stepSound : ∀ row ∈ stepTable, row.Sound := by
  simp only [stepTable, List.forall_mem_cons]
  exact ⟨integersMapped (· + 1) fun _ => rfl, floatsMapped (· + 1.0) fun _ => rfl,
    integersMapped (· - 1) fun _ => rfl, floatsMapped (· - 1.0) fun _ => rfl, nofun⟩

theorem binaryResult : ∀ row ∈ binaryTable, ∃ p, row.result = .primitive p := by
  simp [binaryTable]

theorem unaryRow : ∀ row ∈ unaryTable, ∃ p q, row.operand = .primitive p ∧ row.result = .primitive q := by
  simp [unaryTable]

theorem stepRow : ∀ row ∈ stepTable, ∃ p, row.operand = .primitive p := by
  simp [stepTable]

section
variable {a b : Value}

theorem binaryComputes {op : BinaryOp} {left right : Ty} {row : BinaryRow}
    (found : resolveBinary op left right = some row) (simpleLeft : left.Simple)
    (simpleRight : right.Simple) (hasLeft : a.HasType left.widen) (hasRight : b.HasType right.widen) :
    Computes row.result (Value.binary row.opcode a b) := by
  have listed := List.mem_of_find?_eq_some found
  have fits := List.find?_some found
  rw [Bool.and_eq_true, Bool.and_eq_true] at fits
  obtain ⟨takesLeft, takesRight⟩ := rowOperands row listed
  exact binarySound row listed a b (hasLeft.serves simpleLeft takesLeft fits.1.2)
    (hasRight.serves simpleRight takesRight fits.2)

theorem unaryComputes {op : UnaryOp} {operand : Ty} {row : UnaryRow}
    (found : resolveUnary op operand = some row) (simple : operand.Simple)
    (has : a.HasType operand.widen) : Computes row.result (Value.unary row.opcode a) := by
  have listed := List.mem_of_find?_eq_some found
  have fits := List.find?_some found
  rw [Bool.and_eq_true] at fits
  obtain ⟨p, _, same, -⟩ := unaryRow row listed
  refine unarySound row listed a (has.serves simple ?_ fits.2)
  rw [same]
  exact .primitive p

theorem stepComputes {op : StepOp} {operand : Ty} {row : StepRow}
    (found : resolveStep op operand = some row) (declared : operand.Declared) :
    operand = row.operand ∧ (a.HasType operand → Computes operand (Value.unary row.opcode a)) := by
  have listed := List.mem_of_find?_eq_some found
  have fits := List.find?_some found
  rw [Bool.and_eq_true] at fits
  obtain ⟨p, same⟩ := stepRow row listed
  have fits := fits.2
  rw [same] at fits
  obtain rfl : operand = row.operand := (declared.assignedTo fits).trans same.symm
  refine ⟨rfl, fun has => stepSound row listed a ?_⟩
  rw [same] at has ⊢
  exact has

end

end Operators

end Quill
