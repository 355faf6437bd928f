import Quill.Check
import Quill.Proofs.Evaluation.Agreement
import Quill.Proofs.Soundness.Static

/-! Code of programs that the checker accepts keeps to the types that the binder found: at each of
its points the stack has the values of the expressions that were evaluated, with their types. -/
namespace Quill

open NestedFlow (flatPiece)

theorem obligationMet {code : DiagnosticCode} {span : Span} {what : String} {actual expected : Ty}
    (clean : (Bound.obligation code span what actual expected).hasErrors = false) :
    actual.assignableTo expected = true := by
  unfold Bound.obligation at clean
  split at clean
  · assumption
  · cases clean

namespace Bound

variable {nodes : List Node} {types : TypedNames} {values : List Expr} {nested : Bool} {e : Expr}
  {v : Value}

theorem Expr.Computes.of {result : Ty} {r : Except ApplyError Value} (type : e.type = result)
    (declared : result.Declared) (other : ∀ note value, e ≠ .literal note value)
    (computed : Quill.Computes result r) : e.Computes r := by
  cases r with
  | ok v => exact ⟨by rw [type, declared.widened]; exact computed, fun same => (other _ _ same).elim⟩
  | error reason => exact computed

theorem Expr.Admits.has {type : Ty} (admits : e.Admits v) (same : e.type = type) :
    v.HasType type.widen :=
  same ▸ admits.typed

theorem Expr.Admits.of {type : Ty} (has : v.HasType type) (same : e.type = type)
    (declared : type.Declared) (other : ∀ note value, e ≠ .literal note value) : e.Admits v :=
  ⟨by rw [same, declared.widened]; exact has, fun equal => (other _ _ equal).elim⟩

theorem literalSeen (mark : Mark) (value : Literal)
    (known : (Expr.literal ⟨mark, value.type⟩ value).node ∈ nodes) :
    (views nodes).closed.Piece (literalCode mark value) ⟨types, none, values, nested⟩
      ⟨types, none, .literal ⟨mark, value.type⟩ value :: values, nested⟩ := by
  have admits (has : value.value.HasType value.type.widen) :
      (Expr.literal ⟨mark, value.type⟩ value).Admits value.value :=
    ⟨has, fun same => by cases same; rfl⟩
  cases value with
  | none => exact flatPiece (v := .none) rfl (.blank rfl ⟨rfl, known⟩ (admits .none))
  | float x =>
    have constant : Value.ofOperand? (.double x.toBits) = some (.float x) := by
      rw [Value.ofOperand?, Number.ofBitsToBits]
    exact flatPiece constant (.constant rfl constant ⟨rfl, known⟩ (admits (.float x)))
  | int n => exact flatPiece rfl (.constant rfl rfl ⟨rfl, known⟩ (admits (.int n)))
  | string s => exact flatPiece rfl (.constant rfl rfl ⟨rfl, known⟩ (admits (.string s)))
  | char c => exact flatPiece rfl (.constant rfl rfl ⟨rfl, known⟩ (admits (.char c)))
  | bool b => exact flatPiece rfl (.constant rfl rfl ⟨rfl, known⟩ (admits (.bool b)))

theorem nameSeen (m : Mark) (n : String) :
    (views nodes).closed.Piece [push m (.str n)] ⟨types, none, values, nested⟩
      ⟨types, some (.name n m.id), values, nested⟩ :=
  flatPiece rfl (.cue rfl rfl rfl rfl)

theorem keySeen (m : Mark) (k : PropertyName) :
    (views nodes).closed.Piece [push m (keyOperand k)] ⟨types, none, values, nested⟩
      ⟨types, some (.key k m.id), values, nested⟩ := by
  cases k with
  | name s => exact flatPiece rfl (.cue (v := .str s) rfl rfl rfl rfl)
  | int n => exact flatPiece rfl (.cue (v := .int n) rfl rfl rfl rfl)

theorem loadSeen {n : String} {type : Ty} (declared : typeOf? types n = some type)
    (known : e.node ∈ nodes) (admits : ∀ v : Value, v.HasType type → e.Admits v) :
    (views nodes).closed.Piece (load e.mark n) ⟨types, none, values, nested⟩
      ⟨types, none, e :: values, nested⟩ :=
  (nameSeen e.mark n).append (flatPiece (v := .none) rfl (.load rfl declared ⟨rfl, known⟩ admits))

theorem storeSeen {n : String} {type : Ty} {value : Expr} (declared : typeOf? types n = some type)
    (known : e.node ∈ nodes) (fits : ∀ v, value.Admits v → v.HasType type)
    (admits : ∀ v, value.Admits v → e.Admits v) :
    (views nodes).closed.Piece (store e.mark n) ⟨types, none, value :: values, nested⟩
      ⟨types, none, e :: values, nested⟩ :=
  (nameSeen e.mark n).append
    (flatPiece (v := .none) rfl (.store rfl declared ⟨rfl, known⟩ fits admits))

theorem defineSeen (m : Mark) {n : String} {type : Ty} {value : Expr}
    {inner : List (String × Ty)} (fits : ∀ v, value.Admits v → v.HasType type) :
    (views nodes).closed.Piece (define m n) ⟨inner :: types, none, [value], false⟩
      ⟨((n, type) :: inner) :: types, none, [], false⟩ :=
  (nameSeen m n).append (flatPiece (v := .none) rfl (.define rfl rfl fits))

theorem popSeen (m : Mark) :
    (views nodes).closed.Piece [instr m .pop] ⟨types, none, e :: values, nested⟩
      ⟨types, none, values, nested⟩ :=
  flatPiece (v := .none) rfl (.pop rfl)

theorem binarySeen {op : Opcode} {left right : Expr} (binary : op.isBinary)
    (known : e.node ∈ nodes)
    (computes : ∀ a b, left.Admits a → right.Admits b → e.Computes (Value.binary op a b)) :
    (views nodes).closed.Piece [instr e.mark op] ⟨types, none, right :: left :: values, nested⟩
      ⟨types, none, e :: values, nested⟩ :=
  flatPiece (v := .none) rfl (.binary binary ⟨rfl, known⟩ computes)

theorem unarySeen {op : Opcode} {operand : Expr} (unary : op.isUnary) (known : e.node ∈ nodes)
    (computes : ∀ v, operand.Admits v → e.Computes (Value.unary op v)) :
    (views nodes).closed.Piece [instr e.mark op] ⟨types, none, operand :: values, nested⟩
      ⟨types, none, e :: values, nested⟩ :=
  flatPiece (v := .none) rfl (.unary unary ⟨rfl, known⟩ computes)

end Bound

open Bound

theorem memberRead {members : List TyMember} {name : Option String} {m : TyMember} {v key : Value}
    (has : v.HasType (.interface name members [])) (inside : m ∈ members)
    (named : key.key? = some m.key) : ∃ u, memberOf v key = .ok u ∧ u.HasType m.type := by
  cases has with
  | intrinsic signature => cases signature
  | @object id entries _ _ present held =>
    obtain ⟨u, found⟩ := present m inside
    refine ⟨u, ?_, held m inside u found⟩
    simp only [memberOf, named, found, Option.getD_some]

def SlotSeen (nodes : List Bound.Node) (types : TypedNames) (properties : List Bound.Property)
    (slot : Nat) (c : Code) : Prop :=
  ∃ property, properties[slot / 2]? = some property ∧
    (views nodes).Runs c ⟨types, none, [], true⟩
      (if slot % 2 = 0 then property.keyView types
        else ⟨types, none, [property.value.core], true⟩)

theorem objectSeen {nodes : List Bound.Node} {types : TypedNames} {values : List Bound.Expr}
    {nested : Bool} {note : Bound.Note} {properties : List Bound.Property}
    (known : (Bound.Expr.object note properties).node ∈ nodes)
    (keys : ∀ p ∈ properties, ∃ k, p.key.Named k)
    (type : note.type = .interface none (gathered [] properties) [])
    (runs : ∀ slot c, propertyCode? (propertyOperands properties) slot = some c →
      SlotSeen nodes types properties slot c) :
    (views nodes).closed.Piece
      [.mk .pushObject (.list (propertyOperands properties)) (some note.mark.id)]
      ⟨types, none, values, nested⟩ ⟨types, none, .object note properties :: values, nested⟩ := by
  have shapes (properties : List Bound.Property) :
      (∀ x ∈ propertyOperands properties, PropertyShape x) ∧
        (propertyOperands properties).length = properties.length := by
    induction properties with
    | nil => rw [propertyOperands]; exact ⟨nofun, rfl⟩
    | cons p rest ih =>
      obtain ⟨key | key, value, expected⟩ := p <;> rw [propertyOperands] <;>
        exact ⟨List.forall_mem_cons.mpr ⟨⟨_, _, rfl⟩, ih.1⟩, congrArg (· + 1) ih.2⟩
  obtain ⟨shapes, length⟩ := shapes properties
  refine .one ⟨.object rfl rfl shapes length ⟨rfl, known⟩ keys type, fun slot c found => ?_⟩
  obtain ⟨property, listed, runs⟩ := runs slot c found
  by_cases even : slot % 2 = 0
  · rw [if_pos even] at runs
    exact ⟨_, _, .key rfl listed even, runs⟩
  · rw [if_neg even] at runs
    exact ⟨_, _, .value rfl listed even, runs⟩

section
variable {nodes : List Bound.Node} {values : List Bound.Expr} {nested : Bool} {t : SymbolTable}

theorem stepSeen {op : StepOp} {name : String} {symbol : VarSymbol} {row : StepRow} (mark : Mark)
    (declared : symbol.type.Declared) (found : t.lookup name = some symbol)
    (resolved : Operators.resolveStep op symbol.type = some row) {e : Bound.Expr}
    (same : e = .step ⟨mark, resultType [symbol.type] row.operand⟩ op name (some (row, symbol)))
    (known : e.node ∈ nodes) :
    (views nodes).closed.Piece (stepCode e.mark name row.opcode) ⟨t.types, none, values, nested⟩
      ⟨t.types, none, e :: values, nested⟩ := by
  -- The old value stays on the stack while the new one is stored.
  obtain ⟨p, primitive, result⟩ := Operators.stepSimple resolved declared
  have type : e.type = symbol.type := by
    rw [same]
    exact result.trans primitive.symm
  have other (note : Bound.Note) (value : Literal) : e ≠ .literal note value := by
    rw [same]
    nofun
  have listed := SymbolTable.lookupTypes found
  have admits (v : Value) (has : v.HasType symbol.type) : e.Admits v := .of has type declared other
  have fits (v : Value) (admits : e.Admits v) : v.HasType symbol.type :=
    declared.widened ▸ admits.has type
  refine .append (.append (.append (.append (loadSeen listed known admits)
    (loadSeen listed known admits)) (unarySeen (Operators.resolvedStep resolved) known fun v old => ?_))
      (storeSeen listed known fits fun _ => id)) (popSeen e.mark)
  exact .of type declared other ((Operators.stepComputes resolved declared).2 (fits v old))

theorem assignSeen {name : String} {symbol : VarSymbol} {value e : Bound.Expr} {type : Ty}
    (declared : symbol.type.Declared) (found : t.lookup name = some symbol) (simple : type.Simple)
    (fits : type.assignableTo symbol.type = true) (valueType : value.type = type)
    (exprType : e.type = type) (other : ∀ note value, e ≠ .literal note value)
    (known : e.node ∈ nodes) :
    (views nodes).closed.Piece (store e.mark name) ⟨t.types, none, value :: values, nested⟩
      ⟨t.types, none, e :: values, nested⟩ :=
  storeSeen (SymbolTable.lookupTypes found) known
    (fun _ admits => (admits.has valueType).fits simple declared fits)
    fun _ admits => ⟨exprType ▸ admits.has valueType, fun same => (other _ _ same).elim⟩

end

-- The invariant is which expressions have left the values on the stack, not only the types of
-- these: a literal leaves its own value alone, and so a member may be read by a key that is written
-- as one.
mutual

theorem exprSeen {nodes : List Bound.Node} {expected : Option Ty} {t u : SymbolTable} {e : Expr}
    {b : Bound.Expr} :
    ExprBinds expected t e b u → e.functionFree → t.Declares → (checkExpr b).hasErrors = false →
    b.nodes ⊆ nodes → ∀ values nested, (views nodes).closed.Piece b.code
      ⟨t.types, none, values, nested⟩ ⟨t.types, none, b.core :: values, nested⟩
  | .literal mark value, _, _, _, known, _, _ => by
    rw [Bound.Expr.code]
    exact literalSeen mark value (known Bound.Expr.nodeInside)
  | .ident mark found, _, declares, _, known, _, _ => by
    rw [Bound.Expr.code]
    exact loadSeen (e := .ident ⟨mark, _⟩ _ _) (SymbolTable.lookupTypes found)
      (known Bound.Expr.nodeInside) fun v has => .of has rfl (declares.found found) nofun
  | @ExprBinds.binary _ _ _ _ mark _ _ _ left' right' row lefts rights resolved, free, declares, clean,
      known, values, nested => by
    rw [Expr.functionFree, Bool.and_eq_true] at free
    rw [checkExpr] at clean
    rw [Bound.Expr.nodes, List.append_subset] at known
    rw [Bound.Expr.code]
    obtain ⟨clean, -⟩ := Diagnostics.cleanParts (Diagnostics.cleanParts clean).1
    obtain ⟨cleanLeft, cleanRight⟩ := Diagnostics.cleanParts clean
    obtain ⟨knownLeft, knownRight⟩ := List.append_subset.mp known.1
    have declares' := declares.same (exprVars lefts)
    have left := exprSeen lefts free.1 declares cleanLeft knownLeft values nested
    have right := exprSeen rights free.2 declares' cleanRight knownRight (left'.core :: values) nested
    rw [SymbolTable.typesSame (exprVars lefts)] at right
    have simpleLeft := exprSimple lefts free.1 declares
    have simpleRight := exprSimple rights free.2 declares'
    obtain ⟨p, same, result⟩ := Operators.binarySimple resolved simpleLeft simpleRight
    refine (left.append right).append (binarySeen (e := .binary ⟨mark, _⟩ _ _ _ _)
      (Operators.resolvedBinary resolved) (known.2 List.mem_cons_self) fun a b admits admits' => ?_)
    refine .of (result.trans same.symm) (same ▸ .primitive p) nofun ?_
    exact Operators.binaryComputes resolved simpleLeft simpleRight (admits.has (coreType lefts))
      (admits'.has (coreType rights))
  | .unary mark operands resolved, free, declares, clean, known, values, nested => by
    rw [Expr.functionFree] at free
    rw [checkExpr] at clean
    rw [Bound.Expr.nodes, List.append_subset] at known
    rw [Bound.Expr.code]
    have operand := exprSeen operands free declares (Diagnostics.cleanParts clean).1 known.1 values
      nested
    have simple := exprSimple operands free declares
    obtain ⟨p, same, result⟩ := Operators.unarySimple resolved simple
    refine operand.append (unarySeen (e := .unary ⟨mark, _⟩ _ _ _)
      (Operators.resolvedUnary resolved) (known.2 List.mem_cons_self) fun v admits => ?_)
    refine .of (result.trans same.symm) (same ▸ .primitive p) nofun ?_
    exact Operators.unaryComputes resolved simple (admits.has (coreType operands))
  | .step mark _ found _ resolved, _, declares, _, known, _, _ => by
    rw [Bound.Expr.code]
    exact stepSeen mark (declares.found found) found resolved rfl (known Bound.Expr.nodeInside)
  | .assign mark found _ assigned, free, declares, clean, known, values, nested => by
    rw [Expr.functionFree] at free
    rw [checkExpr] at clean
    rw [Bound.Expr.nodes, List.append_subset] at known
    rw [Bound.Expr.code]
    obtain ⟨cleanValue, clean⟩ := Diagnostics.cleanParts clean
    have fits := obligationMet (Diagnostics.cleanParts clean).2
    have value := exprSeen assigned free declares cleanValue known.1 values nested
    exact value.append (assignSeen (e := .assign ⟨mark, _⟩ _ _ _ _) (declares.found found) found
      (exprSimple assigned free declares) fits (coreType assigned) rfl nofun
      (known.2 List.mem_cons_self))
  | @ExprBinds.update _ _ _ mark name op symbol _ value' row found _ assigned resolved, free, declares,
      clean, known, values, nested => by
    rw [Expr.functionFree] at free
    rw [checkExpr] at clean
    rw [Bound.Expr.nodes, List.append_subset] at known
    rw [Bound.Expr.code]
    obtain ⟨cleanValue, clean⟩ := Diagnostics.cleanParts clean
    have inside := known.2 List.mem_cons_self
    have declared := declares.found found
    have simple := exprSimple assigned free declares
    obtain ⟨p, same, result⟩ := Operators.binarySimple resolved (.declared declared) simple
    have fits := obligationMet (Diagnostics.cleanParts clean).2
    -- An operator gives a primitive type, which fits no other: so what is loaded has it too.
    have type : symbol.type = resultType [symbol.type, value'.type] row.result :=
      (declared.assignedFrom (result ▸ fits)).trans result.symm
    let e := Bound.Expr.assign ⟨mark, resultType [symbol.type, value'.type] row.result⟩ name (some op)
      (some ⟨symbol, some row⟩) value'
    have load : (views nodes).closed.Piece (load mark name) ⟨t.types, none, values, nested⟩
        ⟨t.types, none, e :: values, nested⟩ :=
      loadSeen (SymbolTable.lookupTypes found) inside fun v has => .of has type.symm declared nofun
    have value := exprSeen assigned free declares cleanValue known.1 (e :: values) nested
    refine ((load.append value).append (binarySeen (e := e) (Operators.resolvedBinary resolved) inside
      fun a b admits admits' => ?_)).append (assignSeen (e := e) declared found
        (.declared (result ▸ .primitive p)) fits rfl rfl nofun inside)
    refine .of (result.trans same.symm) (same ▸ .primitive p) nofun ?_
    exact Operators.binaryComputes resolved (.declared declared) simple (admits.has type.symm)
      (admits'.has (coreType assigned))
  | .object mark listed, free, declares, clean, known, values, nested => by
    rw [Expr.functionFree] at free
    rw [checkExpr] at clean
    rw [Bound.Expr.nodes, List.append_subset] at known
    rw [Bound.Expr.code]
    obtain ⟨plain, members, keys⟩ := propertiesSimple listed free declares ⟨nofun, rfl⟩
    refine objectSeen (known.2 List.mem_cons_self) keys ?_
      (propertiesSeen listed free declares (Diagnostics.cleanParts clean).1 known.1)
    change Shape.type _ = _
    rw [Shape.type, plain.index, members]
    rfl
  | @ExprBinds.member _ _ _ _ mark _ object' _ key' type objects keys read, free, declares, clean,
      known, values, nested => by
    rw [Expr.functionFree, Bool.and_eq_true] at free
    rw [checkExpr] at clean
    rw [Bound.Expr.nodes, List.append_subset] at known
    obtain ⟨knownObject, knownKey⟩ := List.append_subset.mp known.1
    have object := exprSeen objects free.1 declares (Diagnostics.cleanParts clean).1 knownObject values
      nested
    have simple := exprSimple objects free.1 declares
    obtain ⟨name, members, m, same, inside, named, rfl⟩ := keyReads free.2 keys simple read
    have reads (v key : Value) (admits : object'.core.Admits v) (found : key.key? = some m.key) :
        ∃ u, memberOf v key = .ok u ∧ (Bound.Expr.member ⟨mark, m.type⟩ object' key').Admits u := by
      have has := admits.has ((coreType objects).trans same)
      obtain ⟨u, given, has⟩ := memberRead has inside found
      rw [same] at simple
      cases simple with
      | declared declared =>
        cases declared with
        | interface held => exact ⟨u, given, .of has rfl (held m inside) nofun⟩
        | builtin signature => cases signature
    cases keys with
    | known written =>
      cases named.1
      rw [Bound.Expr.code]
      exact object.append ((keySeen mark m.key).append
        (flatPiece (v := .none) rfl (.member rfl ⟨rfl, known.2 List.mem_cons_self⟩ reads)))
    | @computed _ _ key key' keys =>
      cases keys with
      | literal keyMark value =>
        rw [Bound.Expr.code, Bound.Expr.code]
        refine (object.append (literalSeen keyMark value (knownKey Bound.Expr.nodeInside))).append
          (flatPiece (v := .none) rfl (.computed rfl ⟨rfl, known.2 List.mem_cons_self⟩
            fun v w admits literal => reads v w admits (named.2 _ rfl w literal)))
      | _ => exact absurd free.2 Bool.false_ne_true
  | .grouping mark inners, free, declares, clean, known, values, nested => by
    rw [Expr.functionFree] at free
    rw [checkExpr] at clean
    rw [Bound.Expr.nodes, List.append_subset] at known
    rw [Bound.Expr.code]
    have inner := exprSeen inners free declares clean known.1 values nested
    exact inner
  | .call .., free, _, _, _, _, _ => by rw [Expr.functionFree] at free; cases free
  | .function .., free, _, _, _, _, _ => by rw [Expr.functionFree] at free; cases free

theorem propertiesSeen {nodes : List Bound.Node} {expected : Option Ty} {shape last : Shape}
    {t u : SymbolTable} {properties : List Property} {properties' : List Bound.Property} :
    PropertiesBind expected shape t properties properties' last u →
    propertiesFunctionFree properties → t.Declares →
    (checkPropertyValues properties').hasErrors = false → Bound.propertyNodes properties' ⊆ nodes →
    ∀ slot c, propertyCode? (propertyOperands properties') slot = some c →
      SlotSeen nodes t.types properties' slot c
  | .nil, _, _, _, _ => by
    rw [propertyOperands]
    exact nofun
  | @PropertiesBind.cons _ _ _ _ _ _ _ _ _ key' _ value' _ _ rest' keys values added others, free,
      declares, clean, known => by
    rw [propertiesFunctionFree, Bool.and_eq_true, Bool.and_eq_true] at free
    obtain ⟨⟨written, free⟩, freeRest⟩ := free
    rw [checkPropertyValues] at clean
    obtain ⟨clean, cleanRest⟩ := Diagnostics.cleanParts clean
    rw [Bound.propertyNodes, List.append_subset, List.append_subset] at known
    obtain ⟨⟨knownKey, knownValue⟩, knownRest⟩ := known
    have before := declares.same (keyVars keys)
    have value := exprSeen values free before (Diagnostics.cleanParts clean).2 knownValue [] true
    have rest := propertiesSeen others freeRest (before.same (exprVars values)) cleanRest knownRest
    rw [SymbolTable.typesSame ((exprVars values).trans (keyVars keys))] at rest
    rw [SymbolTable.typesSame (keyVars keys)] at value
    have slots {code : Code} {type : Ty}
        (key : (views nodes).closed.Piece code ⟨t.types, none, [], true⟩
          (Bound.Property.keyView t.types (.mk key' value' type)))
        (slot : Nat) (c : Code)
        (found : propertyCode? (.tuple (.code code) (.code value'.code) :: propertyOperands rest')
          slot = some c) : SlotSeen nodes t.types (.mk key' value' type :: rest') slot c := by
      match slot with
      | 0 =>
        cases found
        exact ⟨_, rfl, NestedFlow.runsOfPiece key⟩
      | 1 =>
        cases found
        exact ⟨_, rfl, NestedFlow.runsOfPiece value⟩
      | slot + 2 =>
        rw [propertyCons] at found
        obtain ⟨property, listed, runs⟩ := rest slot c found
        rw [show slot % 2 = (slot + 2) % 2 by omega] at runs
        refine ⟨property, ?_, runs⟩
        rwa [show (slot + 2) / 2 = slot / 2 + 1 by omega, List.getElem?_cons_succ]
    cases keys with
    | known name =>
      rw [propertyOperands]
      exact slots (keySeen value'.mark name)
    | @computed _ _ key key' keys =>
      cases keys with
      | literal mark value =>
        have code : (Bound.Expr.literal ⟨mark, value.type⟩ value).code = literalCode mark value := by
          rw [Bound.Expr.code]
        rw [propertyOperands, code]
        exact slots (literalSeen mark value (knownKey Bound.Expr.nodeInside))
      | _ => cases written

end

mutual

theorem stmtSeen {nodes : List Bound.Node} {t u : SymbolTable} {s : Stmt} {s' : Bound.Stmt} :
    StmtBinds t s s' u → s.functionFree → t.Declares → (checkStmt s').hasErrors = false →
    s'.nodes ⊆ nodes → Short s'.code →
    (views nodes).closed.Piece s'.code ⟨t.types, none, [], false⟩ ⟨u.types, none, [], false⟩
  | @StmtBinds.initialized _ _ mark name _ _ annotated _ init' resolved inits, free, declares, clean,
      known, _ => by
    obtain ⟨free, declared⟩ := letDeclared free declares resolved inits
    rw [checkStmt] at clean
    rw [Bound.Stmt.nodes, List.append_subset] at known
    rw [Bound.Stmt.code]
    obtain ⟨cleanInit, clean⟩ := Diagnostics.cleanParts clean
    have fits := obligationMet clean
    obtain ⟨inner, outer, whole⟩ := t.varsCons
    have types : t.types = inner.map VarSymbol.typed :: outer.map (·.map VarSymbol.typed) :=
      congrArg (List.map (List.map VarSymbol.typed)) whole
    have init := exprSeen inits free declares cleanInit known.1 [] false
    rw [SymbolTable.defineTypes ((SymbolTable.typesSame (exprVars inits)).trans types)]
    rw [types] at init ⊢
    exact init.append (defineSeen mark fun v admits =>
      (admits.has (coreType inits)).fits (exprSimple inits free declares) declared fits)
  | .branch mark conditions thens, free, declares, clean, known, short => by
    simp only [Stmt.functionFree, Bool.and_eq_true] at free
    rw [checkStmt] at clean
    rw [Bound.Stmt.nodes, List.append_subset, List.append_subset] at known
    rw [Bound.Stmt.code] at short ⊢
    obtain ⟨cleanCondition, cleanThen⟩ := Diagnostics.cleanParts clean
    obtain ⟨⟨knownCondition, knownThen⟩, -⟩ := known
    have condition := exprSeen conditions free.1 declares cleanCondition knownCondition [] false
    have branch := blockSeen thens free.2 (declares.same (exprVars conditions)) cleanThen knownThen
      short.append.2.head.2
    rw [SymbolTable.typesSame (blockVars thens)]
    rw [SymbolTable.typesSame (exprVars conditions)] at branch ⊢
    exact Flow.branchPiece condition branch (fun _ => ⟨.condition (.inl rfl), rfl⟩) short.bounds.1
  | .choice mark conditions thens elses, free, declares, clean, known, short => by
    simp only [Stmt.functionFree, Bool.and_eq_true] at free
    obtain ⟨⟨⟨freeCondition, freeThen⟩, isBranch⟩, freeElse⟩ := free
    rw [checkStmt] at clean
    rw [Bound.Stmt.nodes, List.append_subset, List.append_subset, List.append_subset] at known
    rw [Bound.Stmt.code] at short ⊢
    obtain ⟨clean, cleanElse⟩ := Diagnostics.cleanParts clean
    obtain ⟨cleanCondition, cleanThen⟩ := Diagnostics.cleanParts clean
    obtain ⟨⟨⟨knownCondition, knownThen⟩, knownElse⟩, -⟩ := known
    obtain ⟨shortFirst, shortSecond⟩ := short.append
    have declares₁ := declares.same (exprVars conditions)
    have declares₂ := declares₁.same (blockVars thens)
    have condition := exprSeen conditions freeCondition declares cleanCondition knownCondition [] false
    have first := blockSeen thens freeThen declares₁ cleanThen knownThen
      shortFirst.append.2.head.2
    have second := stmtSeen elses freeElse declares₂ cleanElse knownElse shortSecond.head.2
    rw [SymbolTable.typesSame (branchVars (Stmt.freeClosed isBranch freeElse) elses),
      SymbolTable.typesSame (blockVars thens)] at second ⊢
    rw [SymbolTable.typesSame (exprVars conditions)] at first second ⊢
    exact Flow.choicePiece condition first second (fun _ => ⟨.condition (.inl rfl), rfl⟩)
      (fun _ => ⟨.always rfl rfl, rfl⟩) short.bounds.1
  | .loop mark conditions bodies, free, declares, clean, known, short => by
    simp only [Stmt.functionFree, Bool.and_eq_true] at free
    rw [checkStmt] at clean
    rw [Bound.Stmt.nodes, List.append_subset, List.append_subset] at known
    rw [Bound.Stmt.code] at short ⊢
    obtain ⟨cleanCondition, cleanBody⟩ := Diagnostics.cleanParts clean
    obtain ⟨⟨knownCondition, knownBody⟩, -⟩ := known
    have condition := exprSeen conditions free.1 declares cleanCondition knownCondition [] false
    have body := blockSeen bodies free.2 (declares.same (exprVars conditions)) cleanBody knownBody
      short.append.1.append.2.head.2
    rw [SymbolTable.typesSame (blockVars bodies)]
    rw [SymbolTable.typesSame (exprVars conditions)] at body ⊢
    exact Flow.loopPiece condition body (fun _ => ⟨.condition (.inl rfl), rfl⟩)
      (fun _ => ⟨.always rfl rfl, rfl⟩) short.bounds.1
  | .block bodies, free, declares, clean, known, short => by
    rw [Stmt.functionFree] at free
    rw [checkStmt] at clean
    rw [Bound.Stmt.nodes] at known
    rw [Bound.Stmt.code] at short ⊢
    rw [SymbolTable.typesSame (blockVars bodies)]
    exact blockSeen bodies free declares clean known short
  | .expr mark values, free, declares, clean, known, _ => by
    rw [Stmt.functionFree] at free
    rw [checkStmt] at clean
    rw [Bound.Stmt.nodes, List.append_subset] at known
    rw [Bound.Stmt.code, SymbolTable.typesSame (exprVars values)]
    exact (exprSeen values free declares clean known.1 [] false).append (popSeen mark)
  | .uninitialized .., free, _, _, _, _ | .functionDecl .., free, _, _, _, _
  | .typeAlias .., free, _, _, _, _ | .bare .., free, _, _, _, _ | .ret .., free, _, _, _, _ => by
    rw [Stmt.functionFree] at free
    cases free

theorem blockSeen {nodes : List Bound.Node} {t u : SymbolTable} {body : Block}
    {body' : Bound.Block} :
    BlockBinds t body body' u → body.functionFree → t.Declares →
    (checkBlock body').hasErrors = false → body'.nodes ⊆ nodes → Short body'.code →
    (views nodes).closed.Piece body'.code ⟨t.types, none, [], false⟩ ⟨t.types, none, [], false⟩
  | .mk mark bodies, free, declares, clean, known, short => by
    rw [Block.functionFree] at free
    rw [checkBlock] at clean
    rw [Bound.Block.nodes, List.append_subset] at known
    rw [Bound.Block.code] at short ⊢
    obtain ⟨inner, outer, whole⟩ := t.varsCons
    obtain ⟨after, last⟩ := (stmtsVars bodies).opened
    have types : ∃ after, SymbolTable.types _ = after :: t.types :=
      ⟨_, congrArg (List.map (List.map VarSymbol.typed)) last⟩
    obtain ⟨after, types⟩ := types
    have piece := stmtsSeen bodies free declares.push clean known.1 short.append.1.head.2
    rw [types] at piece
    have first : (views nodes).closed.Piece [instr mark .beginScope] ⟨t.types, none, [], false⟩
        ⟨[] :: t.types, none, [], false⟩ :=
      flatPiece (v := .none) rfl (.beginScope rfl)
    have closes : (views nodes).closed.Piece [instr mark .endScope]
        ⟨after :: t.types, none, [], false⟩ ⟨t.types, none, [], false⟩ :=
      flatPiece (v := .none) rfl (.endScope rfl (by rw [SymbolTable.types, whole]; nofun))
    exact (first.append piece).append closes

theorem stmtsSeen {nodes : List Bound.Node} {t u : SymbolTable} {body : List Stmt}
    {body' : List Bound.Stmt} :
    StmtsBind t body body' u → stmtsFunctionFree body → t.Declares →
    (checkStmts body').hasErrors = false → Bound.stmtNodes body' ⊆ nodes →
    Short (stmtsCode body') →
    (views nodes).closed.Piece (stmtsCode body') ⟨t.types, none, [], false⟩
      ⟨u.types, none, [], false⟩
  | .nil, _, _, _, _, _ => by
    rw [stmtsCode]
    exact .nil
  | .cons first others, free, declares, clean, known, short => by
    rw [stmtsFunctionFree, Bool.and_eq_true] at free
    rw [checkStmts] at clean
    rw [Bound.stmtNodes, List.append_subset] at known
    rw [stmtsCode] at short ⊢
    obtain ⟨cleanFirst, cleanRest⟩ := Diagnostics.cleanParts clean
    obtain ⟨shortFirst, shortRest⟩ := short.append
    exact (stmtSeen first free.1 declares cleanFirst known.1 shortFirst).append
      (stmtsSeen others free.2 (stmtDeclares first free.1 declares) cleanRest known.2 shortRest)

end

theorem programSeen {nodes : List Bound.Node} {t u : SymbolTable} {p : Program}
    {p' : Bound.Program} (binds : StmtsBind t p p' u) (free : stmtsFunctionFree p)
    (declares : t.Declares) (clean : (checkStmts p').hasErrors = false)
    (known : Bound.stmtNodes p' ⊆ nodes) (short : Short (programCode p')) :
    ∃ last : View, last.cue = none ∧ last.nested = false ∧
      (views nodes).closed.Piece (programCode p') ⟨t.types, none, [], false⟩ last := by
  -- At the end of a program only the value of its last expression may be left.
  induction p' using programCode.induct generalizing t p with
  | case1 =>
    rw [programCode]
    exact ⟨_, rfl, rfl, .exit rfl ⟨rfl, rfl⟩⟩
  | case2 m value =>
    cases binds with
    | cons first others =>
      cases others
      cases first with
      | expr m values =>
        rw [stmtsFunctionFree, Stmt.functionFree, Bool.and_eq_true] at free
        rw [checkStmts, checkStmt] at clean
        rw [Bound.stmtNodes, Bound.Stmt.nodes, List.append_subset, List.append_subset] at known
        rw [programCode]
        have value := exprSeen values free.1 declares (Diagnostics.cleanParts clean).1 known.1.1 []
          false
        exact ⟨_, rfl, rfl, value.append (.exit rfl ⟨rfl, rfl⟩)⟩
  | case3 s rest other ih =>
    cases binds with
    | cons first others =>
      rw [stmtsFunctionFree, Bool.and_eq_true] at free
      rw [checkStmts] at clean
      rw [Bound.stmtNodes, List.append_subset] at known
      obtain ⟨cleanFirst, cleanRest⟩ := Diagnostics.cleanParts clean
      rw [programCode] at short ⊢
      · obtain ⟨shortFirst, shortRest⟩ := short.append
        obtain ⟨last, used, outside, piece⟩ := ih others free.2 (stmtDeclares first free.1 declares)
          cleanRest known.2 shortRest
        exact ⟨last, used, outside,
          (stmtSeen first free.1 declares cleanFirst known.1 shortFirst).append piece⟩
      · exact other
      · exact other

end Quill
