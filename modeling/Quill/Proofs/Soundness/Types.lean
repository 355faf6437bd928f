import Quill.Intrinsic
import Quill.Proofs.Assignability.Rules
import Quill.Proofs.Simulation.Values

/-! Values and their types, in programs without functions of their own, and that a value fits every
type that its own one is assignable to. -/
namespace Quill

/-- What it is for a value to have a type. An object has every member of its type, with a value of
the member's type, and may have more. -/
inductive Value.HasType : Value → Ty → Prop where
  | none : HasType .none .none
  | bool (b : Bool) : HasType (.bool b) .bool
  | int (n : Int64) : HasType (.int n) .int
  | float (x : Float) : HasType (.float x) .float
  | string (s : String) : HasType (.str s) .string
  | char (c : Char) : HasType (.char c) .char
  | object {id : Nat} {entries : List Entry} {name : Option String} {members : List TyMember}
      (present : ∀ m ∈ members, ∃ v, valueAt? entries m.key = some v)
      (held : ∀ m ∈ members, ∀ v, valueAt? entries m.key = some v → HasType v m.type) :
      HasType (.object id entries) (.interface name members [])
  | intrinsic {i : Intrinsic} {type : Ty} (signature : type = i.signature) :
      HasType (.intrinsic i) type

inductive Ty.Declared : Ty → Prop where
  | primitive (p : Primitive) : Declared (.primitive p)
  | interface {name : Option String} {members : List TyMember}
      (held : ∀ m ∈ members, Declared m.type) : Declared (.interface name members [])
  | builtin {i : Intrinsic} {type : Ty} (signature : type = i.signature) : Declared type

inductive Ty.Simple : Ty → Prop where
  | literal (value : LitValue) : Simple (.literal value)
  | declared {type : Ty} (declared : type.Declared) : Simple type

namespace Ty

theorem Declared.widened {type : Ty} (declared : type.Declared) : type.widen = type := by
  cases declared with
  | primitive p => rfl
  | interface held => rfl
  | builtin signature => subst signature; rfl

theorem Simple.widened {type : Ty} (simple : type.Simple) : type.widen.Declared := by
  cases simple with
  | literal value => exact .primitive _
  | declared declared =>
    rw [declared.widened]
    exact declared

theorem Simple.known {type : Ty} (simple : type.Simple) : type.isAny = false := by
  cases simple with
  | literal value => rfl
  | declared declared =>
    cases declared with
    | primitive p => rfl
    | interface held => rfl
    | builtin signature => subst signature; rfl

theorem Simple.core {type : Ty} (simple : type.Simple) : type.Core := by
  cases simple with
  | literal value => trivial
  | declared declared =>
    cases declared with
    | primitive p => trivial
    | interface held => trivial
    | builtin signature => subst signature; trivial

theorem Declared.assignedTo {type : Ty} {p : Primitive} (declared : type.Declared)
    (fits : type.assignableTo (.primitive p) = true) : type = .primitive p := by
  -- Only a primitive type fits itself.
  cases declared with
  | primitive q => simpa [assignableTo] using fits
  | interface held => simp [assignableTo] at fits
  | builtin signature => subst signature; simp [Intrinsic.signature, assignableTo] at fits

theorem Declared.assignedFrom {type : Ty} {p : Primitive} (declared : type.Declared)
    (fits : (Ty.primitive p).assignableTo type = true) : type = .primitive p := by
  cases declared with
  | primitive q =>
    obtain rfl : p = q := by simpa [assignableTo] using fits
    rfl
  | interface held => simp [assignableTo] at fits
  | builtin signature => subst signature; simp [Intrinsic.signature, assignableTo] at fits

end Ty

theorem Intrinsic.signaturesDiffer {i j : Intrinsic}
    (fits : i.signature.assignableTo j.signature = true) : i = j := by
  -- No built-in function fits the signature of another.
  cases i <;> cases j <;> first
    | rfl
    | simp [signature, params, returns, Operators.number, Ty.assignableTo, Ty.paramsAssignable,
        Ty.someAssignableTo] at fits

theorem insertedMember {members : List TyMember} {m x : TyMember}
    (inside : x ∈ insertMember members m) : x = m ∨ x ∈ members ∧ x.key ≠ m.key := by
  unfold insertMember at inside
  split at inside
  · obtain ⟨old, member, same⟩ := List.mem_map.mp inside
    split at same
    · exact .inl same.symm
    · rename_i differs
      exact .inr (same ▸ ⟨member, differs⟩)
  · rename_i missing
    rcases List.mem_append.mp inside with member | same
    · refine .inr ⟨member, fun equal => missing ?_⟩
      exact List.any_eq_true.mpr ⟨x, member, decide_eq_true equal⟩
    · exact .inl (List.mem_singleton.mp same)

theorem valueAtSet (entries : List Entry) (key other : PropertyName) (v : Value) :
    valueAt? (setEntry entries key v) other =
      if key = other then some v else valueAt? entries other := by
  induction entries with
  | nil =>
    rw [setEntry]
    by_cases same : key = other
    · rw [if_pos same, same, valueAtHit]
    · rw [if_neg same, valueAtMiss same]
  | cons e rest ih =>
    obtain ⟨k, w⟩ := e
    by_cases here : k = key
    · subst here
      rw [setEntryHit]
      by_cases same : k = other
      · rw [if_pos same, same, valueAtHit]
      · rw [if_neg same, valueAtMiss same, valueAtMiss same]
    · rw [setEntryMiss here]
      by_cases found : k = other
      · subst found
        rw [valueAtHit, valueAtHit, if_neg (Ne.symm here)]
      · rw [valueAtMiss found, valueAtMiss found, ih]

def EntriesTyped (entries : List Entry) (members : List TyMember) : Prop :=
  ∀ m ∈ members, ∃ v, valueAt? entries m.key = some v ∧ v.HasType m.type

namespace EntriesTyped

variable {entries : List Entry} {members : List TyMember}

theorem set {key : PropertyName} {type : Ty} {mutable : Bool} {v : Value}
    (typed : EntriesTyped entries members) (has : v.HasType type) :
    EntriesTyped (setEntry entries key v) (insertMember members (.mk key type mutable)) := by
  intro m inside
  rcases insertedMember inside with rfl | ⟨inside, differs⟩
  · exact ⟨v, (valueAtSet ..).trans (if_pos rfl), has⟩
  · obtain ⟨w, found, has⟩ := typed m inside
    exact ⟨w, by rw [valueAtSet, if_neg fun same => differs same.symm, found], has⟩

theorem object (typed : EntriesTyped entries members) (id : Nat) (name : Option String) :
    (Value.object id entries).HasType (.interface name members []) := by
  refine .object (fun m inside => ?_) fun m inside v found => ?_
  · obtain ⟨v, found, -⟩ := typed m inside
    exact ⟨v, found⟩
  · obtain ⟨w, found', has⟩ := typed m inside
    cases found.symm.trans found'
    exact has

end EntriesTyped

namespace Value

variable {v : Value} {type expected : Ty}

theorem HasType.assigned (has : v.HasType type) (known : type.Declared)
    (declared : expected.Declared) (fits : type.assignableTo expected = true) :
    v.HasType expected := by
  induction has generalizing expected with
  | @object id entries name members present held ih =>
    cases declared with
    | primitive p => simp [Ty.assignableTo] at fits
    | @interface name' required expects =>
      have known : ∀ m ∈ members, m.type.Declared := by
        cases known with
        | interface held => exact held
        | builtin signature => cases signature
      obtain ⟨present', -⟩ := Ty.interfaceFits_iff.mp fits
      refine EntriesTyped.object (fun m inside => ?_) id name'
      obtain ⟨own, there, same, fits⟩ := present'.found inside
      obtain ⟨v, found⟩ := present own there
      exact ⟨v, same ▸ found, ih own there v found (known own there) (expects m inside) fits⟩
    | builtin signature => subst signature; simp [Intrinsic.signature, Ty.assignableTo] at fits
  | @intrinsic i type signature =>
    subst signature
    cases declared with
    | primitive p => simp [Intrinsic.signature, Ty.assignableTo] at fits
    | interface expects => simp [Intrinsic.signature, Ty.assignableTo] at fits
    | builtin signature =>
      subst signature
      cases Intrinsic.signaturesDiffer fits
      exact .intrinsic rfl
  | none | bool | int | float | string | char =>
    cases declared with
    | primitive p =>
      obtain rfl : _ = p := by simpa [Ty.assignableTo] using fits
      constructor
    | interface expects => simp [Ty.assignableTo] at fits
    | builtin signature => subst signature; simp [Intrinsic.signature, Ty.assignableTo] at fits

theorem HasType.fits (has : v.HasType type.widen) (simple : type.Simple)
    (declared : expected.Declared) (fits : type.assignableTo expected = true) :
    v.HasType expected := by
  cases simple with
  | literal value =>
    cases declared with
    | primitive p =>
      obtain rfl : value.kind = p := by simpa [Ty.assignableTo] using fits
      exact has
    | interface expects => simp [Ty.assignableTo] at fits
    | builtin signature => subst signature; simp [Intrinsic.signature, Ty.assignableTo] at fits
  | declared known =>
    rw [known.widened] at has
    exact has.assigned known declared fits

end Value

end Quill
