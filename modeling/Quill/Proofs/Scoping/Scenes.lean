import Quill.Proofs.Flow.Optimized
import Quill.Proofs.Typing.Points

/-! Code whose variables are declared. At each of its points certain names are declared in the scopes
around it, whichever way the run got there, and certain names lie on top of the stack to be used. -/
namespace Quill

inductive Due where
  -- The name of a variable.
  | name (n : String)
  -- A function that sees itself under a name that is about to be declared.
  | function (n : String)
  deriving DecidableEq, Repr

structure Scene where
  names : List (List String)
  top : List Due
  deriving DecidableEq, Repr

def Scene.context : Scene → List (List String)
  | ⟨names :: outer, [.function n]⟩ => (n :: names) :: outer
  | p => p.names

theorem plainContext {names : List (List String)} : (Scene.mk names []).context = names := by
  cases names <;> rfl

def Opcode.isPlain : Opcode → Bool
  | push | pushNone | pushObject | pop | getMember | proc | call | ret => true
  | op => op.isBinary || op.isUnary

def Operand.paramName : Operand → String
  | .tuple (.str name) _ => name
  | _ => ""

/-- A variable is read or assigned where its name is declared. -/
inductive Instr.Scopes (i : Instr) : Scene → Scene → Prop where
  | plain {names : List (List String)} (op : i.opcode.isPlain) : Scopes i ⟨names, []⟩ ⟨names, []⟩
  | name {n : String} {names : List (List String)} {top : List Due} (op : i.opcode = .push)
      (operand : i.operand = .str n) : Scopes i ⟨names, top⟩ ⟨names, .name n :: top⟩
  | use {n : String} {names : List (List String)} (op : i.opcode = .load ∨ i.opcode = .store)
      (declared : n ∈ names.flatten) : Scopes i ⟨names, [.name n]⟩ ⟨names, []⟩
  | define {n : String} {names names' : List String} {outer : List (List String)} {top : List Due}
      (op : i.opcode = .define) (known : names' ⊆ n :: names)
      (value : top = [] ∨ top = [.function n]) :
      Scopes i ⟨names :: outer, .name n :: top⟩ ⟨names' :: outer, []⟩
  | function {n : String} {names : List (List String)} {params : List Operand} {body : Code}
      (op : i.opcode = .proc) (operand : i.operand = .tuple (.list params) (.code body))
      (shapes : ∀ x ∈ params, ParamShape x) : Scopes i ⟨names, []⟩ ⟨names, [.function n]⟩
  | beginScope {names : List (List String)} (op : i.opcode = .beginScope) :
      Scopes i ⟨names, []⟩ ⟨[] :: names, []⟩
  | endScope {names : List String} {outer : List (List String)} (op : i.opcode = .endScope)
      (inner : outer ≠ []) : Scopes i ⟨names :: outer, []⟩ ⟨outer, []⟩

/-- Code in an operand runs in the scopes of its instruction, but for functions: their bodies and
defaults see the parameters that are defined by then. -/
inductive Instr.Enters (i : Instr) (p q : Scene) : Nat → Scene → Scene → Prop where
  | same {slot : Nat} {names : List (List String)} (op : i.opcode ≠ .proc) :
      Enters i p q slot ⟨p.names, []⟩ ⟨names, []⟩
  | body {params : List Operand} {body : Operand} {names : List (List String)}
      (op : i.opcode = .proc) (operand : i.operand = .tuple (.list params) body) :
      Enters i p q 0 ⟨(params.map Operand.paramName).reverse :: q.context, []⟩ ⟨names, []⟩
  | default {slot : Nat} {params : List Operand} {body : Operand} {names : List (List String)}
      (op : i.opcode = .proc) (operand : i.operand = .tuple (.list params) body) :
      Enters i p q (slot + 1)
        ⟨((params.map Operand.paramName).take slot).reverse :: q.context, []⟩ ⟨names, []⟩

def scenes : NestedFlow Scene where
  effect := Instr.Scopes
  jumps i p q := i.opcode.isJump ∧ p = q ∧ p.top = []
  exits p := p.top = []
  enters := Instr.Enters

def RunsIn (names : List (List String)) (code : Code) : Prop :=
  ∃ names', scenes.Runs code ⟨names, []⟩ ⟨names', []⟩

def ArgumentRuns (names : List (List String)) (x : Operand) : Prop :=
  ∀ name code, x = .tuple name (.code code) → RunsIn names code

def PropertyRuns (names : List (List String)) (x : Operand) : Prop :=
  ∀ key value, x = .tuple (.code key) (.code value) → RunsIn names key ∧ RunsIn names value

def ParamsRun (outer : List (List String)) (given : List String) (params : List Operand)
    (body : Code) : Prop :=
  (∀ slot c, argumentCode? params slot = some c →
    RunsIn ((((params.map Operand.paramName).take slot).reverse ++ given) :: outer) c) ∧
  RunsIn (((params.map Operand.paramName).reverse ++ given) :: outer) body

namespace Instr

variable {i : Instr} {p q : Scene}

theorem Scopes.notJump (effect : i.Scopes p q) : i.opcode.isJump = false := by
  cases effect with
  | plain op =>
    generalize i.opcode = o at op ⊢
    cases o <;> first | rfl | cases op
  | use op _ => rcases op with op | op <;> rw [op] <;> rfl
  | _ => simp only [*, Opcode.isJump]

theorem Scopes.ofPush (effect : i.Scopes p q) (push : i.opcode = .push) (used : q.top = []) :
    p = q := by
  cases effect with
  | plain _ => rfl
  | name _ _ => cases used
  | use op _ => rcases op with op | op <;> cases push.symm.trans op
  | _ => cases push.symm.trans ‹_›

theorem Scopes.ofOperator (effect : i.Scopes p q) (op : i.opcode.isBinary ∨ i.opcode.isUnary) :
    p = q ∧ p.top = [] := by
  cases effect with
  | plain _ => exact ⟨rfl, rfl⟩
  | use op' _ => rcases op' with op' | op' <;> rw [op'] at op <;> rcases op with op | op <;> cases op
  | _ => simp_all [Opcode.isBinary, Opcode.isUnary]

theorem Scopes.constant {x : Operand} {source : Option Nat} {names : List (List String)} :
    (Instr.mk .push x source).Scopes ⟨names, []⟩ ⟨names, []⟩ :=
  .plain rfl

theorem paramNameOptimized (x : Operand) : x.optimize.paramName = x.paramName := by
  cases x with
  | tuple a b => cases a <;> rfl
  | _ => rfl

theorem paramNamesOptimized (params : List Operand) :
    (optimizeOperands params).map Operand.paramName = params.map Operand.paramName := by
  rw [optimizeMap, List.map_map]
  exact List.map_congr_left fun x _ => paramNameOptimized x

theorem Scopes.optimized (effect : i.Scopes p q) : i.optimize.Scopes p q := by
  obtain ⟨op, x, source⟩ := i
  cases effect with
  | plain op => exact .plain op
  | name op operand =>
    cases operand
    exact .name op rfl
  | use op declared => exact .use op declared
  | define op known value => exact .define op known value
  | function op operand shapes =>
    cases operand
    refine .function op rfl (optimizedAll shapes ?_)
    rintro _ ⟨name, default, rfl⟩
    exact ⟨name, default.optimize, rfl⟩
  | beginScope op => exact .beginScope op
  | endScope op inner => exact .endScope op inner

theorem Enters.optimized {slot : Nat} {first last : Scene} (enters : i.Enters p q slot first last) :
    i.optimize.Enters p q slot first last := by
  obtain ⟨op, x, source⟩ := i
  cases enters with
  | same op => exact .same op
  | body op operand =>
    cases operand
    rw [← paramNamesOptimized]
    exact .body op rfl
  | default op operand =>
    cases operand
    rw [← paramNamesOptimized]
    exact .default op rfl

end Instr

theorem scenesFold : scenes.Folds where
  jumpsOnly jumps := jumps.1
  jumpsSame jumps same := ⟨same ▸ jumps.1, jumps.2⟩
  effectOnly effect := effect.notJump
  binary := by
    intro left right op p q r s a b v x leftPush _ leftEffect rightPush _ rightEffect binary _
      opEffect _
    obtain ⟨rfl, used⟩ := opEffect.ofOperator (.inl binary)
    cases rightEffect.ofPush rightPush used
    cases leftEffect.ofPush leftPush used
    obtain ⟨names, top⟩ := p
    cases used
    exact .constant
  unary := by
    intro operand op p q r a v x push _ operandEffect unary _ opEffect _
    obtain ⟨rfl, used⟩ := opEffect.ofOperator (.inr unary)
    cases operandEffect.ofPush push used
    obtain ⟨names, top⟩ := p
    cases used
    exact .constant
  effectOptimized := Instr.Scopes.optimized
  entersOptimized := Instr.Enters.optimized

section
variable {i : Instr} {p q : Scene} {names : List (List String)}

theorem Instr.Enters.outside {slot : Nat} {first last : Scene} (enters : i.Enters p q slot first last)
    (op : i.opcode ≠ .proc) : first = ⟨p.names, []⟩ ∧ last.top = [] := by
  cases enters with
  | same _ => exact ⟨rfl, rfl⟩
  | body op' _ => exact (op op').elim
  | default op' _ => exact (op op').elim

theorem slotRuns (holds : scenes.Holds i ⟨names, []⟩ q) (op : i.opcode ≠ .proc) {k : Nat}
    {c : Code} (found : i.slot? k = some c) : RunsIn names c := by
  obtain ⟨first, ⟨names', _⟩, enters, runs⟩ := holds k c found
  obtain ⟨rfl, rfl⟩ := Instr.Enters.outside enters op
  exact ⟨names', runs⟩

theorem callHolds {items : List Operand} (holds : scenes.Holds i ⟨names, []⟩ q)
    (op : i.opcode = .call) (list : i.operand = .list items) : ∀ x ∈ items, ArgumentRuns names x := by
  rintro x inside name code rfl
  obtain ⟨slot, found⟩ := List.getElem?_of_mem inside
  refine slotRuns holds (by rw [op]; nofun) (k := slot) ?_
  simp only [Instr.slot?, op, list, argumentCode?, found]

theorem objectHolds {items : List Operand} (holds : scenes.Holds i ⟨names, []⟩ q)
    (op : i.opcode = .pushObject) (list : i.operand = .list items) :
    ∀ x ∈ items, PropertyRuns names x := by
  rintro x inside key value rfl
  obtain ⟨index, found⟩ := List.getElem?_of_mem inside
  have runs := @slotRuns i q names holds (by rw [op]; nofun)
  refine ⟨runs (k := 2 * index) ?_, runs (k := 2 * index + 1) ?_⟩
  · simp only [Instr.slot?, op, list, propertyCode?, Nat.mul_div_cancel_left index Nat.two_pos, found,
      Nat.mul_mod_right, if_pos]
  · simp only [Instr.slot?, op, list, propertyCode?, show (2 * index + 1) / 2 = index by omega, found,
      show (2 * index + 1) % 2 = 1 by omega, if_neg Nat.one_ne_zero]

theorem procHolds {params : List Operand} {body : Code} (holds : scenes.Holds i p q)
    (op : i.opcode = .proc) (operand : i.operand = .tuple (.list params) (.code body)) :
    ParamsRun q.context [] params body := by
  constructor
  · intro slot c found
    obtain ⟨first, last, enters, runs⟩ := holds (slot + 1) c (by
      simp only [Instr.slot?, op, operand, found])
    cases enters with
    | same other => exact (other op).elim
    | @default _ params' _ _ _ same =>
      cases operand.symm.trans same
      rw [List.append_nil]
      exact ⟨_, runs⟩
  · obtain ⟨first, last, enters, runs⟩ := holds 0 body (by simp only [Instr.slot?, op, operand])
    cases enters with
    | same other => exact (other op).elim
    | @body params' _ _ _ same =>
      cases operand.symm.trans same
      rw [List.append_nil]
      exact ⟨_, runs⟩

end

theorem RunsIn.optimized {names : List (List String)} {code : Code} (runs : RunsIn names code) :
    RunsIn names (optimize code) := by
  obtain ⟨names', runs⟩ := runs
  exact ⟨names', runs.optimized scenesFold⟩

end Quill
