import Quill.Proofs.Scoping.Scenes
import Quill.Proofs.Scoping.Tables
import Quill.Proofs.Typing.Generated
import Mathlib.Algebra.Group.Nat.Defs

/-! Generated code declares its variables. The names that code declares at each of its points are
those that the static scopes define where its node is bound. -/
namespace Quill

open NestedFlow (flatPiece)

theorem runsIn {names names' : List (List String)} {code : Code}
    (piece : scenes.closed.Piece code ⟨names, []⟩ ⟨names', []⟩) : RunsIn names code :=
  ⟨names', NestedFlow.runsOfPiece piece⟩

namespace Bound

variable {names outer : List (List String)} {inner : List String} {top : List Due} {p q : Scene}

theorem plainPiece {o : Opcode} {x : Operand} {source : Option Nat} {v : Value}
    (constant : Value.ofOperand? x = some v) (plain : o.isPlain) :
    scenes.closed.Piece [.mk o x source] ⟨names, []⟩ ⟨names, []⟩ :=
  flatPiece constant (.plain plain)

theorem namePiece (m : Mark) (n : String) :
    scenes.closed.Piece [push m (.str n)] ⟨names, top⟩ ⟨names, .name n :: top⟩ :=
  flatPiece rfl (.name rfl rfl)

theorem loadPiece (m : Mark) {n : String} (declared : n ∈ names.flatten) :
    scenes.closed.Piece (load m n) ⟨names, []⟩ ⟨names, []⟩ :=
  (namePiece m n).append (flatPiece rfl (.use (.inl rfl) declared))

theorem storePiece (m : Mark) {n : String} (declared : n ∈ names.flatten) :
    scenes.closed.Piece (store m n) ⟨names, []⟩ ⟨names, []⟩ :=
  (namePiece m n).append (flatPiece rfl (.use (.inr rfl) declared))

theorem definePiece (m : Mark) {n : String} {after : List String} (known : after ⊆ n :: inner)
    (value : top = [] ∨ top = [.function n]) :
    scenes.closed.Piece (define m n) ⟨inner :: outer, top⟩ ⟨after :: outer, []⟩ :=
  (namePiece m n).append (flatPiece rfl (.define rfl known value))

theorem operatorPlain {op : Opcode} (operator : op.isBinary ∨ op.isUnary) : op.isPlain := by
  cases op <;> first | rfl | (rcases operator with operator | operator <;> cases operator)

theorem literalPiece (m : Mark) (value : Literal) :
    scenes.closed.Piece (literalCode m value) ⟨names, []⟩ ⟨names, []⟩ := by
  cases value with
  | none => exact plainPiece rfl rfl
  | _ => exact plainPiece rfl rfl

theorem keyPiece (m : Mark) (name : PropertyName) :
    scenes.closed.Piece [push m (keyOperand name)] ⟨names, []⟩ ⟨names, []⟩ := by
  obtain ⟨v, constant⟩ := keyConstant name
  exact plainPiece constant rfl

theorem stepPiece (m : Mark) {n : String} {op : Opcode} (unary : op.isUnary)
    (declared : n ∈ names.flatten) :
    scenes.closed.Piece (stepCode m n op) ⟨names, []⟩ ⟨names, []⟩ :=
  ((((loadPiece m declared).append (loadPiece m declared)).append
    (plainPiece rfl (operatorPlain (.inr unary)))).append (storePiece m declared)).append
      (plainPiece rfl rfl)

theorem callPiece {items : List Operand} (source : Option Nat)
    (runs : ∀ x ∈ items, ArgumentRuns names x) :
    scenes.closed.Piece [.mk .call (.list items) source] ⟨names, []⟩ ⟨names, []⟩ := by
  refine .one ⟨.plain rfl, fun slot c found => ?_⟩
  obtain ⟨name, inside⟩ := argumentMember found
  obtain ⟨names', runs⟩ := runs _ inside name c rfl
  exact ⟨⟨names, []⟩, ⟨names', []⟩, .same nofun, runs⟩

theorem objectPiece {items : List Operand} (source : Option Nat)
    (runs : ∀ x ∈ items, PropertyRuns names x) :
    scenes.closed.Piece [.mk .pushObject (.list items) source] ⟨names, []⟩ ⟨names, []⟩ := by
  refine .one ⟨.plain rfl, fun slot c found => ?_⟩
  obtain ⟨key, value, inside, either⟩ := propertyMember found
  obtain ⟨keys, values⟩ := runs _ inside key value rfl
  have either : RunsIn names c := by
    rcases either with rfl | rfl
    · exact keys
    · exact values
  obtain ⟨names', runs⟩ := either
  exact ⟨⟨names, []⟩, ⟨names', []⟩, .same nofun, runs⟩

theorem functionHolds {params : List Operand} {body : Code} {source : Option Nat}
    (runs : ParamsRun q.context [] params body) :
    scenes.Holds (.mk .proc (.tuple (.list params) (.code body)) source) p q := by
  intro slot c found
  cases slot with
  | zero =>
    cases found
    obtain ⟨names', runs⟩ := runs.2
    rw [List.append_nil] at runs
    exact ⟨_, ⟨names', []⟩, .body rfl rfl, runs⟩
  | succ slot =>
    obtain ⟨names', runs⟩ := runs.1 slot c found
    rw [List.append_nil] at runs
    exact ⟨_, ⟨names', []⟩, .default rfl rfl, runs⟩

theorem bodyRuns {code : Code} {body : Mark}
    (piece : scenes.closed.Piece code ⟨names, []⟩ ⟨names, []⟩) :
    RunsIn names (code ++ [instr body .pushNone, instr body .ret]) := by
  have last : scenes.closed.Piece [instr body .ret] ⟨names, []⟩ ⟨names, []⟩ := plainPiece rfl rfl
  exact runsIn (piece.append ((plainPiece (o := .pushNone) rfl rfl).append last))

theorem paramShapes (params : List Param) : ∀ x ∈ paramOperands params, ParamShape x := by
  induction params with
  | nil =>
    rw [paramOperands]
    exact List.forall_mem_nil _
  | cons param rest ih =>
    obtain ⟨symbol, _ | default⟩ := param
    · rw [paramOperands]
      exact List.forall_mem_cons.mpr ⟨⟨_, _, rfl⟩, ih⟩
    · rw [paramOperands]
      exact List.forall_mem_cons.mpr ⟨⟨_, _, rfl⟩, ih⟩

theorem reverseStep {given names : List String} {x : Operand} {slot : Nat} :
    (((x.paramName :: names).take (slot + 1)).reverse ++ given) =
      ((names.take slot).reverse ++ (x.paramName :: given)) := by
  rw [List.take_succ_cons, List.reverse_cons, List.append_assoc, List.singleton_append]

end Bound

open Bound

theorem paramsDefine {span : Span} {t u : SymbolTable} {params : List Param}
    {params' : List Bound.Param} {given : List String} {outer : List (List String)}
    (names : t.names = given :: outer) (binds : ParamsBind span t params params' u) :
    u.names = (((paramOperands params').map Operand.paramName).reverse ++ given) :: outer := by
  -- Parameters are defined in order, each behind its own default.
  induction params generalizing t params' given with
  | nil =>
    cases binds
    rw [paramOperands]
    exact names
  | cons param rest ih =>
    cases binds with
    | required name _ others =>
      rw [ih (SymbolTable.defineNames names) others, paramOperands]
      simp only [List.map_cons, List.reverse_cons, List.append_assoc, List.singleton_append]
      rfl
    | optional name _ defaults others =>
      rw [ih (SymbolTable.defineNames ((exprNames defaults).trans names)) others, paramOperands]
      simp only [List.map_cons, List.reverse_cons, List.append_assoc, List.singleton_append]
      rfl

-- By induction on how the program was bound: the scenes on both sides of a piece of code are the
-- names that the table has before and behind its node. Expressions define nothing, so theirs are
-- the same.
mutual

theorem exprPiece {expected : Option Ty} {t u : SymbolTable} {e : Expr} {b : Bound.Expr} :
    ExprBinds expected t e b u → e.Braced → Short b.code →
    scenes.closed.Piece b.code ⟨t.names, []⟩ ⟨t.names, []⟩
  | .literal mark value, _, _ => literalPiece mark value
  | .ident mark found, _, _ => by
    rw [Bound.Expr.code]
    exact loadPiece mark (SymbolTable.lookupNames found)
  | .binary mark lefts rights resolved, ⟨bracedLeft, bracedRight⟩, short => by
    rw [Bound.Expr.code] at short ⊢
    obtain ⟨⟨shortLeft, shortRight⟩, -⟩ := short.append.imp_left Short.append
    have right := exprPiece rights bracedRight shortRight
    rw [exprNames lefts] at right
    exact ((exprPiece lefts bracedLeft shortLeft).append right).append
      (plainPiece rfl (operatorPlain (.inl (Operators.resolvedBinary resolved))))
  | .unary mark operands resolved, braced, short => by
    rw [Bound.Expr.code] at short ⊢
    exact (exprPiece operands braced short.append.1).append
      (plainPiece rfl (operatorPlain (.inr (Operators.resolvedUnary resolved))))
  | .step mark _ found _ resolved, _, _ => by
    rw [Bound.Expr.code]
    exact stepPiece mark (Operators.resolvedStep resolved) (SymbolTable.lookupNames found)
  | .assign mark found _ values, braced, short => by
    rw [Bound.Expr.code] at short ⊢
    exact (exprPiece values braced short.append.1).append
      (storePiece mark (SymbolTable.lookupNames found))
  | .update mark found _ values resolved, braced, short => by
    rw [Bound.Expr.code] at short ⊢
    have declared := SymbolTable.lookupNames found
    exact (((loadPiece mark declared).append
      (exprPiece values braced short.append.1.append.1.append.2)).append
        (plainPiece rfl (operatorPlain (.inl (Operators.resolvedBinary resolved))))).append
          (storePiece mark declared)
  | .call mark callees _ given, ⟨bracedCallee, bracedArgs⟩, short => by
    rw [Bound.Expr.code] at short ⊢
    obtain ⟨shortCallee, shortCall⟩ := short.append
    have operand := shortCall.head.1
    change (Operand.list _).longest < _ at operand
    rw [Operand.longest] at operand
    have runs := argsRun given bracedArgs operand
    rw [exprNames callees] at runs
    exact (exprPiece callees bracedCallee shortCallee).append (callPiece _ runs)
  | .function mark _ taken bodies, ⟨bracedParams, bracedBody⟩, short => by
    rw [Bound.Expr.code] at short ⊢
    obtain ⟨shortParams, shortBody⟩ := procShort short
    refine .one ⟨.plain rfl, functionHolds ?_⟩
    rw [plainContext]
    refine ⟨paramsRun SymbolTable.pushNames taken bracedParams shortParams, ?_⟩
    have body := blockPiece bodies bracedBody shortBody.append.1
    rw [paramsDefine SymbolTable.pushNames taken] at body
    exact bodyRuns body
  | .object mark listed, braced, short => by
    rw [Bound.Expr.code] at short ⊢
    have operand := short.head.1
    change (Operand.list _).longest < _ at operand
    rw [Operand.longest] at operand
    exact objectPiece _ (propertiesRun listed braced operand)
  | .member mark objects (.known name) _, ⟨braced, _⟩, short => by
    rw [Bound.Expr.code] at short ⊢
    exact (exprPiece objects braced short.append.1).append
      ((keyPiece mark name).append (plainPiece (o := .getMember) rfl rfl))
  | .member mark objects (.computed keys) _, ⟨braced, bracedKey⟩, short => by
    rw [Bound.Expr.code] at short ⊢
    obtain ⟨⟨shortBase, shortKey⟩, -⟩ := short.append.imp_left Short.append
    have key := exprPiece keys bracedKey shortKey
    rw [exprNames objects] at key
    exact ((exprPiece objects braced shortBase).append key).append
      (plainPiece (o := .getMember) rfl rfl)
  | .grouping mark inners, braced, short => by
    rw [Bound.Expr.code] at short ⊢
    exact exprPiece inners braced short

theorem argsRun {types : List Ty} {t u : SymbolTable} {args : List Arg}
    {args' : List Bound.Arg} : ArgsBind types t args args' u → argsBraced args →
    operandsLongest (argOperands args') < 2 ^ 31 →
    ∀ x ∈ argOperands args', ArgumentRuns t.names x
  | .nil, _, _ => by
    rw [argOperands]
    exact fun _ inside => nomatch inside
  | .cons name values others, ⟨braced, bracedRest⟩, short => by
    obtain ⟨x, same⟩ := argOperandsCons name _ _ _
    rw [same] at short ⊢
    obtain ⟨shortValue, shortRest⟩ := operandsShort short
    have rest := argsRun others bracedRest shortRest
    rw [exprNames values] at rest
    refine List.forall_mem_cons.mpr ⟨?_, rest⟩
    rintro _ _ ⟨⟩
    exact runsIn (exprPiece values braced (operandCode shortValue))

theorem paramsRun {span : Span} {t u : SymbolTable} {params : List Param}
    {params' : List Bound.Param} {given : List String} {outer : List (List String)}
    (names : t.names = given :: outer) : ParamsBind span t params params' u →
    paramsBraced params → operandsLongest (paramOperands params') < 2 ^ 31 →
    ∀ slot c, argumentCode? (paramOperands params') slot = some c →
      RunsIn (((((paramOperands params').map Operand.paramName).take slot).reverse ++ given) ::
        outer) c
  | .nil, _, _ => by
    rw [paramOperands]
    exact nofun
  | .required name _ others, braced, short => by
    rw [paramOperands] at short ⊢
    rintro (_ | slot) c found
    · cases found
    · have runs := paramsRun (SymbolTable.defineNames names) others braced (operandsShort short).2
        slot c found
      rw [List.map_cons, reverseStep]
      exact runs
  | .optional name _ defaults others, ⟨braced, bracedRest⟩, short => by
    rw [paramOperands] at short ⊢
    obtain ⟨shortDefault, shortRest⟩ := operandsShort short
    rintro (_ | slot) c found
    · cases found
      have piece := exprPiece defaults braced (operandCode shortDefault)
      rw [names] at piece
      exact runsIn piece
    · have runs := paramsRun (SymbolTable.defineNames ((exprNames defaults).trans names)) others
        bracedRest shortRest slot c found
      rw [List.map_cons, reverseStep]
      exact runs

theorem propertiesRun {expected : Option Ty} {shape last : Shape} {t u : SymbolTable}
    {properties : List Property} {properties' : List Bound.Property} :
    PropertiesBind expected shape t properties properties' last u → propertiesBraced properties →
    operandsLongest (propertyOperands properties') < 2 ^ 31 →
    ∀ x ∈ propertyOperands properties', PropertyRuns t.names x
  | .nil, _, _ => by
    rw [propertyOperands]
    exact fun _ inside => nomatch inside
  | .cons (.known name) values _ others, ⟨_, braced, bracedRest⟩, short => by
    rw [propertyOperands] at short ⊢
    obtain ⟨shortValue, shortRest⟩ := operandsShort short
    have rest := propertiesRun others bracedRest shortRest
    rw [exprNames values] at rest
    refine List.forall_mem_cons.mpr ⟨?_, rest⟩
    rintro _ _ ⟨⟩
    exact ⟨runsIn (keyPiece _ name), runsIn (exprPiece values braced (operandCode shortValue))⟩
  | .cons (.computed keys) values _ others, ⟨bracedKey, braced, bracedRest⟩, short => by
    rw [propertyOperands] at short ⊢
    obtain ⟨shortBoth, shortRest⟩ := operandsShort short
    obtain ⟨shortKey, shortValue⟩ := operandCodes shortBoth
    have rest := propertiesRun others bracedRest shortRest
    have value := exprPiece values braced shortValue
    rw [exprNames values, exprNames keys] at rest
    rw [exprNames keys] at value
    refine List.forall_mem_cons.mpr ⟨?_, rest⟩
    rintro _ _ ⟨⟩
    exact ⟨runsIn (exprPiece keys bracedKey shortKey), runsIn value⟩

theorem stmtPiece {t u : SymbolTable} {s : Stmt} {s' : Bound.Stmt} : StmtBinds t s s' u →
    s.Braced → Short s'.code → scenes.closed.Piece s'.code ⟨t.names, []⟩ ⟨u.names, []⟩
  | .uninitialized mark name mutable _, _, _ => by
    obtain ⟨inner, outer, whole⟩ := t.namesCons
    rw [Bound.Stmt.code, SymbolTable.defineNames whole, whole]
    exact (plainPiece (o := .pushNone) rfl rfl).append
      (definePiece mark (List.Subset.refl _) (.inl rfl))
  | .initialized mark name mutable _ inits, braced, short => by
    obtain ⟨inner, outer, whole⟩ := t.namesCons
    rw [Bound.Stmt.code] at short ⊢
    have init := exprPiece inits braced short.append.1
    rw [SymbolTable.defineNames ((exprNames inits).trans whole)]
    rw [whole] at init ⊢
    exact init.append (definePiece mark (List.Subset.refl _) (.inl rfl))
  | .functionDecl mark name _ _ taken bodies, ⟨bracedParams, bracedBody⟩, short => by
    obtain ⟨inner, outer, whole⟩ := t.namesCons
    rw [Bound.Stmt.code] at short ⊢
    obtain ⟨shortParams, shortBody⟩ := procShort short.append.1
    have defined {type : Ty} : (t.define name type false false).2.names = (name :: inner) :: outer :=
      SymbolTable.defineNames whole
    have pushed {type : Ty} :
        (t.define name type false false).2.push.names = [] :: (name :: inner) :: outer :=
      congrArg ([] :: ·) defined
    have inner := ((paramsVars taken).trans (.same (blockVars bodies))).popped
    have after := (SymbolTable.namesSame inner).trans defined
    have body := blockPiece bodies bracedBody shortBody.append.1
    rw [paramsDefine pushed taken] at body
    rw [SymbolTable.defineNames after, whole]
    refine .append (.one ⟨.function rfl rfl (paramShapes _), functionHolds ?_⟩)
      (definePiece mark (by simp [SymbolTable.defineSymbol]) (.inr rfl))
    exact ⟨paramsRun pushed taken bracedParams shortParams, bodyRuns body⟩
  | .typeAlias mark name _, _, _ => by
    rw [Bound.Stmt.code, SymbolTable.namesSame SymbolTable.defineTypeVars]
    exact .nil
  | .branch mark conditions thens, ⟨braced, bracedThen⟩, short => by
    rw [Bound.Stmt.code] at short ⊢
    obtain ⟨shortCondition, shortRest⟩ := short.append
    have branch := blockPiece thens bracedThen shortRest.head.2
    rw [blockNames thens]
    rw [exprNames conditions] at branch ⊢
    exact Flow.branchPiece (exprPiece conditions braced shortCondition) branch
      (fun _ => ⟨⟨rfl, rfl, rfl⟩, rfl⟩) short.bounds.1
  | .choice mark conditions thens elses, ⟨braced, bracedThen, branch, bracedElse⟩, short => by
    rw [Bound.Stmt.code] at short ⊢
    obtain ⟨shortFirst, shortSecond⟩ := short.append
    obtain ⟨shortCondition, shortBranch⟩ := shortFirst.append
    have first := blockPiece thens bracedThen shortBranch.head.2
    have second := stmtPiece elses bracedElse shortSecond.head.2
    rw [SymbolTable.namesSame (branchVars (bracedElse.closed branch) elses), blockNames thens] at second ⊢
    rw [exprNames conditions] at first second ⊢
    exact Flow.choicePiece (exprPiece conditions braced shortCondition) first second
      (fun _ => ⟨⟨rfl, rfl, rfl⟩, rfl⟩) (fun _ => ⟨⟨rfl, rfl, rfl⟩, rfl⟩) short.bounds.1
  | .loop mark conditions bodies, ⟨braced, bracedBody⟩, short => by
    rw [Bound.Stmt.code] at short ⊢
    obtain ⟨shortCondition, shortBody⟩ := short.append.1.append
    have body := blockPiece bodies bracedBody shortBody.head.2
    rw [blockNames bodies]
    rw [exprNames conditions] at body ⊢
    exact Flow.loopPiece (exprPiece conditions braced shortCondition) body
      (fun _ => ⟨⟨rfl, rfl, rfl⟩, rfl⟩) (fun _ => ⟨⟨rfl, rfl, rfl⟩, rfl⟩) short.bounds.1
  | .bare mark, _, _ => by
    rw [Bound.Stmt.code]
    have last : scenes.closed.Piece [instr mark .ret] ⟨t.names, []⟩ ⟨t.names, []⟩ :=
      plainPiece rfl rfl
    exact (plainPiece (o := .pushNone) rfl rfl).append last
  | .ret mark values, braced, short => by
    rw [Bound.Stmt.code] at short ⊢
    rw [exprNames values]
    exact (exprPiece values braced short.append.1).append (plainPiece (o := .ret) rfl rfl)
  | .block bodies, braced, short => by
    rw [Bound.Stmt.code] at short ⊢
    rw [blockNames bodies]
    exact blockPiece bodies braced short
  | .expr mark values, braced, short => by
    rw [Bound.Stmt.code] at short ⊢
    rw [exprNames values]
    exact (exprPiece values braced short.append.1).append (plainPiece (o := .pop) rfl rfl)

theorem blockPiece {t u : SymbolTable} {body : Block} {body' : Bound.Block} :
    BlockBinds t body body' u → body.Braced → Short body'.code →
    scenes.closed.Piece body'.code ⟨t.names, []⟩ ⟨t.names, []⟩
  | .mk mark bodies, braced, short => by
    rw [Bound.Block.code] at short ⊢
    obtain ⟨inner, outer, whole⟩ := t.namesCons
    obtain ⟨after, last⟩ := (stmtsVars bodies).openedNames
    have piece := stmtsPiece bodies braced short.append.1.head.2
    rw [last] at piece
    have first : scenes.closed.Piece [instr mark .beginScope] ⟨t.names, []⟩ ⟨[] :: t.names, []⟩ :=
      flatPiece rfl (.beginScope rfl)
    have closes : scenes.closed.Piece [instr mark .endScope] ⟨after :: t.names, []⟩ ⟨t.names, []⟩ :=
      flatPiece rfl (.endScope rfl (by rw [whole]; nofun))
    exact (first.append piece).append closes

theorem stmtsPiece {t u : SymbolTable} {body : List Stmt} {body' : List Bound.Stmt} :
    StmtsBind t body body' u → stmtsBraced body → Short (stmtsCode body') →
    scenes.closed.Piece (stmtsCode body') ⟨t.names, []⟩ ⟨u.names, []⟩
  | .nil, _, _ => by
    rw [stmtsCode]
    exact .nil
  | .cons first others, ⟨braced, bracedRest⟩, short => by
    rw [stmtsCode] at short ⊢
    obtain ⟨shortFirst, shortRest⟩ := short.append
    exact (stmtPiece first braced shortFirst).append (stmtsPiece others bracedRest shortRest)

end

end Quill
