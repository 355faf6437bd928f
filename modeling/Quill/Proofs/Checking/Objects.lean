import Quill.Check
import Quill.Proofs.Assignability.Keys
import Quill.Proofs.Binding.Refused
import Quill.Proofs.Binding.Regular

/-! Object literals where an interface is expected. Binding types the literal on its own, with each
value's type widened, and checking holds each value against its member as well as the whole against
the interface. So a literal that fills an interface passes just if its values fit widened. -/
namespace Quill

/-- Values that are bound one behind the other, each in the context that its key has, with nothing
to report and nothing to check. -/
inductive ValuesBind (context : PropertyName → Option Ty) : BindState →
    List (PropertyName × Expr) → List (PropertyName × Bound.Expr) → BindState → Prop where
  | nil {s : BindState} : ValuesBind context s [] [] s
  | cons {s s' u : BindState} {key : PropertyName} {value : Expr} {value' : Bound.Expr}
      {rest : List (PropertyName × Expr)} {rest' : List (PropertyName × Bound.Expr)}
      (bound : bindExpr (context key) value s = (value', s'))
      (quiet : s'.diagnostics = s.diagnostics) (checked : Bound.checkExpr value' = [])
      (others : ValuesBind context s' rest rest' u) :
      ValuesBind context s ((key, value) :: rest) ((key, value') :: rest') u

def listed (properties : List (PropertyName × Expr)) : List Property :=
  properties.map fun p => .mk (.known p.1) p.2

def listedAs (context : PropertyName → Option Ty) (values : List (PropertyName × Bound.Expr)) :
    List Bound.Property :=
  values.map fun p => .mk (.known p.1) p.2 ((context p.1).getD p.2.type.widen)

def widenedMembers (values : List (PropertyName × Bound.Expr)) : List TyMember :=
  values.map fun p => .mk p.1 p.2.type.widen false

section
variable {context : PropertyName → Option Ty} {s u : BindState}
variable {properties : List (PropertyName × Expr)} {values : List (PropertyName × Bound.Expr)}

theorem ValuesBind.keys (bound : ValuesBind context s properties values u) :
    values.map (·.1) = properties.map (·.1) := by
  induction bound with
  | nil => rfl
  | cons _ _ _ _ ih => simp [ih]

theorem ValuesBind.quiet (bound : ValuesBind context s properties values u) :
    u.diagnostics = s.diagnostics := by
  induction bound with
  | nil => rfl
  | cons _ quiet _ _ ih => rw [ih, quiet]

theorem ValuesBind.checked (bound : ValuesBind context s properties values u) :
    Bound.checkPropertyValues (listedAs context values) = [] := by
  induction bound with
  | nil => rfl
  | cons _ _ checked _ ih =>
    rw [listedAs, List.map_cons, Bound.checkPropertyValues, checked]
    exact ih

theorem ValuesBind.regular (bound : ValuesBind context s properties values u)
    (contexts : ∀ key, ∀ t ∈ context key, t.Regular) (known : s.symbols.Regular)
    (numeric : ∀ p ∈ properties, p.2.Written Literal.Numeric) : ∀ p ∈ values, p.2.type.Regular := by
  induction bound with
  | nil => exact List.forall_mem_nil _
  | @cons s s' u key value value' rest rest' bound _ _ _ ih =>
    obtain ⟨first, others⟩ := List.forall_mem_cons.mp numeric
    have kept := exprKeeps (contexts key) value first s known
    rw [bound] at kept
    exact List.forall_mem_cons.mpr ⟨kept.2.type, ih kept.1 others⟩

theorem Shape.addNew {shape : Shape} {key : PropertyName} (fresh : key ∉ shape.members.map (·.key))
    (type : Ty) (mutable : Bool) :
    shape.addMember key type mutable =
      { shape with members := shape.members ++ [.mk key type mutable] } := by
  have missing : shape.members.any (·.key = key) = false := by
    rw [List.any_eq_false]
    intro m held same
    exact fresh (List.mem_map.mpr ⟨m, held, of_decide_eq_true same⟩)
  unfold Shape.addMember insertMember
  rw [TyMember.key, if_neg (by simp [missing])]

theorem bindKnown {expected : Option Ty} {shape : Shape} {key : PropertyName} {value : Expr}
    {value' : Bound.Expr} {s' : BindState} (rest : List Property)
    (bound : bindExpr (contextual expected (.known key)) value s = (value', s')) :
    bindProperties expected shape (.mk (.known key) value :: rest) s =
      let others := bindProperties expected (shape.addMember key value'.type.widen false) rest s'
      ((.mk (.known key) value' ((contextual expected (.known key)).getD value'.type.widen) ::
        others.1.1, others.1.2), others.2) := by
  rw [bindProperties, bindKey]
  refine (Binder.onward (a := Bound.Key.known key) rfl).trans ((Binder.onward bound).trans ?_)
  exact (Binder.onward (a := (shape.addMember key value'.type.widen false, value'.type.widen)) rfl)

theorem ValuesBind.listed {expected : Option Ty} (shape : Shape)
    (bound : ValuesBind (fun key => contextual expected (.known key)) s properties values u)
    (distinct : (shape.members.map (·.key) ++ properties.map (·.1)).Nodup) :
    bindProperties expected shape (Quill.listed properties) s =
      ((listedAs (fun key => contextual expected (.known key)) values,
        { shape with members := shape.members ++ widenedMembers values }), u) := by
  induction bound generalizing shape with
  | nil => simp [Quill.listed, bindProperties, listedAs, widenedMembers]; rfl
  | @cons s s' u key value value' rest rest' bound _ _ _ ih =>
    have fresh : key ∉ shape.members.map (·.key) := by
      have := (List.nodup_append.mp distinct).2.2
      intro held
      exact this key held key List.mem_cons_self rfl
    have grown := Shape.addNew fresh value'.type.widen false
    rw [Quill.listed, List.map_cons, bindKnown _ bound]
    have others := ih (shape.addMember key value'.type.widen false)
      (by simpa [grown, TyMember.key] using distinct)
    rw [Quill.listed] at others
    rw [others, grown]
    simp [listedAs, widenedMembers]

theorem Bound.obligationPasses {code : DiagnosticCode} {span : Span} {what : String}
    {actual expected : Ty} : Bound.obligation code span what actual expected = [] ↔
      actual.assignableTo expected = true := by
  unfold Bound.obligation
  split <;> simp [*]

theorem checkListed : Bound.checkProperties (listedAs context values) = [] ↔ ∀ p ∈ values,
    p.2.type.assignableTo ((context p.1).getD p.2.type.widen) = true := by
  simp only [Bound.checkProperties, listedAs, List.flatMap_eq_nil_iff, List.forall_mem_map,
    Bound.obligationPasses]
  rfl

end

section
variable {mark : Mark} (mark' : Mark) (name : String) (mutable : Bool)
variable {written : TypeExpr} {type : Ty}
variable {label : Option String} {members : List TyMember} {s u : BindState}
variable {properties : List (PropertyName × Expr)} {values : List (PropertyName × Bound.Expr)}

theorem contextualMember (interface : type.unwrapParens = .interface label members [])
    (key : PropertyName) : contextual (some type) (.known key) =
      (members.find? (·.key = key)).map (·.type) := by
  simp only [contextual, Option.bind_eq_bind, Option.bind_some, interface, Bound.Key.name?,
    lookupMember]
  cases found : members.find? (·.key = key) <;> simp

theorem widenedFills (interface : type.unwrapParens = .interface label members [])
    (keys : (values.map (·.1)).Nodup) (filled : ∀ m ∈ members, m.key ∈ values.map (·.1)) :
    (Shape.mk (widenedMembers values) []).type.assignableTo type = true ↔
      ∀ p ∈ values, ∀ m ∈ members, m.key = p.1 → p.2.type.widen.assignableTo m.type = true := by
  have distinct : ((widenedMembers values).map (·.key)).Nodup := by
    simpa [widenedMembers, Function.comp_def, TyMember.key] using keys
  have found (p : PropertyName × Bound.Expr) (held : p ∈ values) :
      (widenedMembers values).find? (·.key = p.1) = some (.mk p.1 p.2.type.widen false) :=
    foundByKey distinct (List.mem_map.mpr ⟨p, held, rfl⟩)
  rw [← Ty.unwrappedRight, interface, Shape.type, Ty.interfaceFits_iff]
  constructor
  · rintro ⟨fits, -⟩ p held m inside same
    obtain ⟨w, there, fits⟩ := fits m inside
    cases (found p held).symm.trans (same ▸ there)
    exact fits
  · refine fun fits => ⟨fun m inside => ?_, fun _ held => absurd held List.not_mem_nil⟩
    obtain ⟨p, held, same⟩ := List.mem_map.mp (filled m inside)
    exact ⟨.mk p.1 p.2.type.widen false, same ▸ found p held, fits p held m inside same.symm⟩

def filling (mark mark' : Mark) (name : String) (mutable : Bool) (written : TypeExpr)
    (properties : List (PropertyName × Expr)) : Stmt :=
  .letDecl mark name mutable (some written) (some (.object mark' (listed properties)))

theorem fillingBinds (annotated : resolveType mark.span written s = (type, s))
    (keys : (properties.map (·.1)).Nodup)
    (bound : ValuesBind (fun key => contextual (some type) (.known key)) s properties values u) :
    ∃ symbol u', symbol.type = type ∧ u'.diagnostics = u.diagnostics ∧
      bindStmt (filling mark mark' name mutable written properties) s =
        (.letDecl mark symbol (some (.object ⟨mark', (Shape.mk (widenedMembers values) []).type⟩
          (listedAs (fun key => contextual (some type) (.known key)) values))), u') := by
  have listed := bound.listed .empty (by simpa [Shape.empty] using keys)
  let defined := u.symbols.define name type mutable false
  refine ⟨defined.1, { u with symbols := defined.2 }, rfl, rfl, ?_⟩
  have object := Binder.onward listed (f := fun found =>
    Pure.pure (Bound.Expr.object ⟨mark', found.2.type⟩ found.1))
  rw [filling, bindStmt]
  have resolved : resolveAnnotation mark.span (some written) s = (some type, s) :=
    Binder.onward annotated
  refine (Binder.onward resolved).trans ?_
  rw [bindExpr]
  exact (Binder.onward object).trans (Binder.onward (a := type) rfl)

section
variable (known : s.symbols.Regular) (numeric : written.Written Literal.Numeric)
variable (numerics : ∀ p ∈ properties, p.2.Written Literal.Numeric)
include known numeric numerics

/-- A literal that has a property for each member of an interface is bound with nothing to report,
and nothing is wrong with it just if its values fit their members, widened. -/
theorem objectFills (annotated : resolveType mark.span written s = (type, s))
    (interface : type.unwrapParens = .interface label members [])
    (keys : (properties.map (·.1)).Nodup)
    (filled : ∀ m ∈ members, m.key ∈ properties.map (·.1))
    (bound : ValuesBind (fun key => contextual (some type) (.known key)) s properties values u) :
    let (b, u') := bindStmt (filling mark mark' name mutable written properties) s
    u'.diagnostics = s.diagnostics ∧
      (Bound.checkStmt b = [] ↔ ∀ p ∈ values, ∀ m ∈ members, m.key = p.1 →
        p.2.type.widen.assignableTo m.type = true) := by
  obtain ⟨symbol, u', typed, quiet, made⟩ := fillingBinds mark' name mutable annotated keys bound
  have types : type.Regular := by
    have kept := (typeKeeps mark.span written numeric s known).2
    rwa [annotated] at kept
  have contexts (key : PropertyName) := contextualRegular (ofSome types) (.known key)
  rw [made]
  refine ⟨quiet.trans bound.quiet, ?_⟩
  rw [Bound.checkStmt, Bound.checkExpr, bound.checked, List.nil_append, List.append_eq_nil_iff,
    Bound.obligationPasses, checkListed, typed]
  change _ ∧ (Shape.mk (widenedMembers values) []).type.assignableTo type = true ↔ _
  rw [widenedFills interface (bound.keys ▸ keys) (bound.keys ▸ filled), and_iff_right_iff_imp]
  intro fits p held
  rw [contextualMember interface]
  cases found : members.find? (·.key = p.1) with
  | none => exact Ty.fitsWidened (Ty.selfFits (bound.regular contexts known numerics p held))
  | some m =>
    have same : m.key = p.1 := by simpa using List.find?_some found
    exact Ty.narrowFits (fits p held m (List.mem_of_find?_eq_some found) same)

/-- A literal whose values fit their members is taken for the interface if no member gets a value of
a literal type. -/
theorem objectAccepted (annotated : resolveType mark.span written s = (type, s))
    (interface : type.unwrapParens = .interface label members [])
    (keys : (properties.map (·.1)).Nodup)
    (filled : ∀ m ∈ members, m.key ∈ properties.map (·.1))
    (bound : ValuesBind (fun key => contextual (some type) (.known key)) s properties values u)
    (fits : ∀ p ∈ values, ∀ m ∈ members, m.key = p.1 → p.2.type.assignableTo m.type = true)
    (whole : ∀ p ∈ values, ∀ m ∈ members, m.key = p.1 → ∀ v, p.2.type.unwrapParens ≠ .literal v) :
    let (b, u') := bindStmt (filling mark mark' name mutable written properties) s
    u'.diagnostics = s.diagnostics ∧ Bound.checkStmt b = [] := by
  obtain ⟨quiet, passes⟩ :=
    objectFills mark' name mutable known numeric numerics annotated interface keys filled bound
  refine ⟨quiet, passes.mpr fun p held m inside same => ?_⟩
  rw [Ty.widenedFits (whole p held m inside same)]
  exact fits p held m inside same

end

end

end Quill
