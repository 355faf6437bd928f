import Quill.Bound.Nodes
import Quill.Proofs.Arguments.Matched
import Quill.Proofs.Binding.Known

/-! Types that are bound. In a program without literals that are not-a-number every bound node has
regular types only, whether or not there are errors. -/
namespace Quill

namespace Bound

def Outcome.types : Outcome → List Ty
  | .variable symbol | .letDecl symbol => [symbol.type]
  | .function symbol params declared _ =>
    (symbol.toList ++ params).map (·.type) ++ declared.toList
  | .binary row => [row.left, row.right, row.result]
  | .unary row => [row.operand, row.result]
  | .step row symbol => [row.operand, symbol.type]
  | .assign target =>
    target.symbol.type :: target.row.toList.flatMap fun row => [row.left, row.right, row.result]
  | .call paramTypes => paramTypes
  | .object expected => expected
  | _ => []

def Node.types (n : Node) : List Ty := n.type.toList ++ n.outcome.types

def Regular (nodes : List Node) : Prop := ∀ n ∈ nodes, ∀ t ∈ n.types, t.Regular

section
variable {xs ys : List Node} {e : Expr}

theorem Regular.nil : Regular [] := List.forall_mem_nil _

theorem Regular.append (first : Regular xs) (second : Regular ys) : Regular (xs ++ ys) :=
  List.forall_mem_append.mpr ⟨first, second⟩

theorem Regular.parts (regular : Regular (xs ++ ys)) : Regular xs ∧ Regular ys :=
  List.forall_mem_append.mp regular

theorem Regular.node (parts : Regular xs) {n : Node} (own : ∀ t ∈ n.types, t.Regular) :
    Regular (xs ++ [n]) :=
  parts.append (List.forall_mem_singleton.mpr own)

theorem Regular.type (regular : Regular e.nodes) : e.type.Regular := by
  refine regular e.node Expr.nodeInside e.type (List.mem_append_left _ ?_)
  rw [e.nodeType]
  exact List.mem_singleton_self _

end

mutual

theorem stmtReturned : (s : Stmt) → Regular s.nodes → ∀ r ∈ s.returns, r.type.Regular
  | .letDecl .., _ | .functionDecl .., _ | .typeAlias _, _ | .expr .., _ => nofun
  | .ret _ none, _ => List.forall_mem_singleton.mpr (Ty.primitiveRegular .none)
  | .ret _ (some value), regular => by
    rw [Stmt.nodes] at regular
    exact List.forall_mem_singleton.mpr regular.parts.1.type
  | .ifElse _ _ thenBranch none, regular => by
    rw [Stmt.nodes] at regular
    exact blockReturned thenBranch regular.parts.1.parts.2
  | .ifElse _ _ thenBranch (some elseBranch), regular => by
    rw [Stmt.nodes] at regular
    obtain ⟨before, others⟩ := regular.parts.1.parts
    exact List.forall_mem_append.mpr
      ⟨blockReturned thenBranch before.parts.2, stmtReturned elseBranch others⟩
  | .whileLoop _ _ body, regular => by
    rw [Stmt.nodes] at regular
    exact blockReturned body regular.parts.1.parts.2
  | .block body, regular => by
    rw [Stmt.nodes] at regular
    exact blockReturned body regular

theorem blockReturned : (b : Block) → Regular b.nodes → ∀ r ∈ b.returns, r.type.Regular
  | .mk _ _ body, regular => by
    rw [Block.nodes] at regular
    exact stmtsReturned body regular.parts.1

theorem stmtsReturned : (body : List Stmt) → Regular (stmtNodes body) →
    ∀ r ∈ returnsOf body, r.type.Regular
  | [], _ => nofun
  | s :: rest, regular => by
    rw [stmtNodes] at regular
    obtain ⟨first, others⟩ := regular.parts
    exact List.forall_mem_append.mpr ⟨stmtReturned s first, stmtsReturned rest others⟩

end

theorem returnedRegular {body : List Stmt} (regular : Regular (stmtNodes body)) :
    (returnedType body).Regular :=
  Ty.unionOfRegular (List.forall_mem_map.mpr (stmtsReturned body regular))

end Bound

open Binder (Keeps)

section
variable {params : List Bound.Param} {ret : Ty}

theorem functionTypeRegular (typed : ∀ p ∈ params, p.symbol.type.Regular) (returns : ret.Regular) :
    (functionType params ret).Regular :=
  Ty.functionRegular (List.forall_mem_map.mpr typed) returns

theorem functionTypes {mark : Mark} {type : Ty} {symbol : Option VarSymbol} {declared : Option Ty}
    {body : Bound.Block} (regular : type.Regular) (named : ∀ v ∈ symbol, v.type.Regular)
    (typed : ∀ p ∈ params, p.symbol.type.Regular) (annotated : ∀ t ∈ declared, t.Regular) :
    ∀ t ∈ (Bound.functionNode mark type symbol params declared body).types, t.Regular := by
  change ∀ t ∈ type :: ((symbol.toList ++ params.map Bound.Param.symbol).map (·.type) ++
    declared.toList), t.Regular
  refine List.forall_mem_cons.mpr ⟨regular, List.forall_mem_append.mpr ⟨?_, ?_⟩⟩
  · refine List.forall_mem_map.mpr (List.forall_mem_append.mpr ⟨?_, List.forall_mem_map.mpr typed⟩)
    exact fun v held => named v (Option.mem_toList.mp held)
  · exact fun t held => annotated t (Option.mem_toList.mp held)

end

section
variable (mark : Mark)

theorem stepKeeps (op : StepOp) (name : String) :
    Keeps (bindStep mark op name) fun b => Bound.Regular b.nodes := by
  have failed : Bound.Regular (Bound.Expr.step ⟨mark, .any⟩ op name none).nodes := by
    rw [Bound.Expr.nodes]
    exact Bound.Regular.nil.node (List.forall_mem_singleton.mpr Ty.anyRegular)
  refine (Binder.lookupKeeps mark.span name).bind fun found known => ?_
  cases found with
  | none => exact .pure failed
  | some symbol =>
    refine (Binder.mutableKeeps mark.span symbol).bind fun _ _ => ?_
    split
    · rename_i row resolved
      have operand := stepRowRegular row (List.mem_of_find?_eq_some resolved)
      refine .pure ?_
      rw [Bound.Expr.nodes]
      refine Bound.Regular.nil.node (List.forall_mem_cons.mpr ⟨resultRegular operand _, ?_⟩)
      exact List.forall_mem_cons.mpr ⟨operand, List.forall_mem_singleton.mpr (known symbol rfl)⟩
    · exact .error (.pure failed)

theorem binaryKeeps (op : BinaryOp) {left right : Bound.Expr} (lefts : Bound.Regular left.nodes)
    (rights : Bound.Regular right.nodes) :
    Keeps (bindBinary mark op left right) fun b => Bound.Regular b.nodes := by
  unfold bindBinary
  split
  · rename_i row resolved
    obtain ⟨leftRow, rightRow, result⟩ := binaryRowRegular row (List.mem_of_find?_eq_some resolved)
    refine .pure ?_
    rw [Bound.Expr.nodes]
    refine (lefts.append rights).node (List.forall_mem_cons.mpr ⟨resultRegular result _, ?_⟩)
    exact List.forall_mem_cons.mpr ⟨leftRow, List.forall_mem_cons.mpr
      ⟨rightRow, List.forall_mem_singleton.mpr result⟩⟩
  · refine .error (.pure ?_)
    rw [Bound.Expr.nodes]
    exact (lefts.append rights).node (List.forall_mem_singleton.mpr Ty.anyRegular)

theorem unaryKeeps (op : UnaryOp) {operand : Bound.Expr} (regular : Bound.Regular operand.nodes) :
    Keeps (bindUnary mark op operand) fun b => Bound.Regular b.nodes := by
  unfold bindUnary
  split
  · rename_i row resolved
    obtain ⟨operandRow, result⟩ := unaryRowRegular row (List.mem_of_find?_eq_some resolved)
    refine .pure ?_
    rw [Bound.Expr.nodes]
    refine regular.node (List.forall_mem_cons.mpr ⟨resultRegular result _, ?_⟩)
    exact List.forall_mem_cons.mpr ⟨operandRow, List.forall_mem_singleton.mpr result⟩
  · refine .error (.pure ?_)
    rw [Bound.Expr.nodes]
    exact regular.node (List.forall_mem_singleton.mpr Ty.anyRegular)

theorem assignKeeps (name : String) (op : Option BinaryOp) {found : Option VarSymbol}
    (known : ∀ v ∈ found, v.type.Regular) {value : Bound.Expr}
    (regular : Bound.Regular value.nodes) :
    Keeps (bindAssign mark name op found value) fun b => Bound.Regular b.nodes := by
  have failed (op : Option BinaryOp) :
      Bound.Regular (Bound.Expr.assign ⟨mark, .any⟩ name op none value).nodes := by
    rw [Bound.Expr.nodes]
    exact regular.node (List.forall_mem_singleton.mpr Ty.anyRegular)
  cases found with
  | none => exact .pure (failed op)
  | some symbol =>
    have symbols := known symbol rfl
    refine (Binder.mutableKeeps mark.span symbol).bind fun _ _ => ?_
    split
    · refine .pure ?_
      rw [Bound.Expr.nodes]
      refine regular.node (List.forall_mem_cons.mpr ⟨regular.type, ?_⟩)
      exact List.forall_mem_singleton.mpr symbols
    split
    · rename_i row resolved
      obtain ⟨leftRow, rightRow, result⟩ :=
        binaryRowRegular row (List.mem_of_find?_eq_some resolved)
      refine .pure ?_
      rw [Bound.Expr.nodes]
      refine regular.node (List.forall_mem_cons.mpr ⟨resultRegular result _, ?_⟩)
      exact List.forall_mem_cons.mpr ⟨symbols, List.forall_mem_cons.mpr ⟨leftRow,
        List.forall_mem_cons.mpr ⟨rightRow, List.forall_mem_singleton.mpr result⟩⟩⟩
    · exact .error (.pure (failed none))

end

section
variable (span : Span)

theorem matchKeeps {params : List TyParam} (regular : ∀ p ∈ params, p.type.Regular)
    (args : List Arg) :
    Keeps (matchCall span params args) fun types => ∀ t ∈ types, t.Regular := by
  intro s known
  rw [matchCallGives]
  refine ⟨known, List.forall_mem_map.mpr fun m _ => ?_⟩
  -- Arguments that are out of place fit any type.
  cases m with
  | param index =>
    refine givenRegular (fun t found => ?_) Ty.anyRegular
    obtain ⟨p, found, rfl⟩ := Option.map_eq_some_iff.mp found
    exact regular p (List.mem_of_getElem? ‹_›)
  | _ => exact Ty.anyRegular

theorem calleeKeeps {callee : Ty} (regular : callee.Regular) (args : List Arg) :
    Keeps (bindCallee span callee args) fun r => (∀ t ∈ r.1, t.Regular) ∧ r.2.Regular := by
  have unwrapped := regular.unwrapped
  unfold bindCallee
  split
  · rename_i params ret same
    rw [same] at unwrapped
    refine (matchKeeps span (fun p held => ?_) args).bind fun types regulars => .pure ⟨regulars, ?_⟩
    · exact unwrapped.inside (Ty.paramInside held)
    · exact unwrapped.inside Ty.returnInside
  · dsimp only
    split
    · exact .pure ⟨List.forall_mem_nil _, Ty.anyRegular⟩
    · exact .error (.pure ⟨List.forall_mem_nil _, Ty.anyRegular⟩)

theorem propertyKeeps {shape : Shape} (regular : shape.type.Regular) (key : Bound.Key) {value : Ty}
    (values : value.Regular) :
    Keeps (addProperty span shape key value) fun r => r.1.type.Regular ∧ r.2.Regular := by
  unfold addProperty
  split
  · exact .pure ⟨Shape.memberRegular regular values _ false, values⟩
  split
  · rename_i kind _
    refine .pure ?_
    dsimp only
    split
    · rename_i found
      have merged := Ty.unionOfRegular (List.forall_mem_cons.mpr
        ⟨regular.indexed found, List.forall_mem_singleton.mpr values⟩)
      exact ⟨Shape.indexRegular regular merged kind, merged⟩
    · exact ⟨Shape.indexRegular regular values kind, values⟩
  · exact .error (.pure ⟨regular, Ty.anyRegular⟩)

theorem memberKeeps {object : Ty} (regular : object.Regular) (key : Bound.Key) :
    Keeps (bindMember span object key) Ty.Regular := by
  have unwrapped := regular.unwrapped
  unfold bindMember
  split
  · exact .pure Ty.anyRegular
  · rename_i same
    rw [same] at unwrapped
    split
    · rename_i found
      exact .pure (unwrapped.member found)
    · exact .error (.pure Ty.anyRegular)
  · exact .error (.pure Ty.anyRegular)

theorem declaredKeeps (mark : Mark) (name : String) {annotated : Option Ty}
    (regular : ∀ t ∈ annotated, t.Regular) {init : Option Bound.Expr}
    (inits : ∀ e ∈ init, e.type.Regular) :
    Keeps (declaredType mark name annotated init) Ty.Regular := by
  unfold declaredType
  split
  · exact .pure (regular _ rfl)
  · exact .pure (inits _ rfl).widened
  · exact .report (.pure Ty.anyRegular)

end

mutual

theorem exprKeeps {expected : Option Ty} (context : ∀ t ∈ expected, t.Regular) :
    (e : Expr) → e.Written Literal.Numeric →
    Keeps (bindExpr expected e) fun b => Bound.Regular b.nodes
  | .literal mark value, numeric => by
    rw [bindExpr]
    refine .pure ?_
    rw [Bound.Expr.nodes]
    exact Bound.Regular.nil.node (List.forall_mem_singleton.mpr (Literal.typeRegular numeric))
  | .ident mark name, _ => by
    rw [bindExpr]
    refine (Binder.lookupKeeps mark.span name).bind fun found known => .pure ?_
    rw [Bound.Expr.nodes]
    cases found with
    | none => exact Bound.Regular.nil.node (List.forall_mem_singleton.mpr Ty.anyRegular)
    | some symbol =>
      have type := known symbol rfl
      exact Bound.Regular.nil.node
        (List.forall_mem_cons.mpr ⟨type, List.forall_mem_singleton.mpr type⟩)
  | .binary mark op left right, ⟨lefts, rights⟩ => by
    rw [bindExpr]
    exact (exprKeeps ofNone left lefts).bind fun _ left => (exprKeeps ofNone right rights).bind
      fun _ right => binaryKeeps mark op left right
  | .unary mark op operand, numeric => by
    rw [bindExpr]
    exact (exprKeeps ofNone operand numeric).bind fun _ operand => unaryKeeps mark op operand
  | .step mark op name _, _ => by
    rw [bindExpr]
    exact stepKeeps mark op name
  | .assign mark name op value, numeric => by
    rw [bindExpr]
    refine (Binder.lookupKeeps mark.span name).bind fun found known => ?_
    refine (exprKeeps ?_ value numeric).bind fun _ value => assignKeeps mark name op known value
    exact Option.forall_mem_map.mpr known
  | .call mark callee args, ⟨callees, given⟩ => by
    rw [bindExpr]
    refine (exprKeeps ofNone callee callees).bind fun callee' callees => ?_
    refine (calleeKeeps mark.span callees.type args).bind fun r ⟨types, type⟩ => ?_
    refine (argsKeep types args given).bind fun args' ⟨values, typed⟩ => .pure ?_
    rw [Bound.Expr.nodes]
    refine (callees.append values).node (List.forall_mem_cons.mpr ⟨type, ?_⟩)
    exact List.forall_mem_map.mpr typed
  | .function mark params ret body, ⟨taken, returned, bodies⟩ => by
    rw [bindExpr]
    refine ( annotationKeeps mark.span returned).bind fun declared annotated => ?_
    refine Binder.pushKeeps.bind fun _ _ => ?_
    refine (parametersKeep body.mark.span params taken).bind fun params' ⟨defaults, typed⟩ => ?_
    refine (blockKeeps body bodies).bind fun body' ⟨bodies, type⟩ => ?_
    refine Binder.popKeeps.bind fun _ _ => .pure ?_
    rw [Bound.Expr.nodes]
    refine (defaults.append bodies).node ?_
    exact functionTypes (functionTypeRegular typed (givenRegular annotated type)) nofun typed
      annotated
  | .object mark properties, numeric => by
    rw [bindExpr]
    refine (propertiesKeep context Shape.emptyRegular properties numeric).bind
      fun r ⟨values, typed, type⟩ => .pure ?_
    rw [Bound.Expr.nodes]
    exact values.node (List.forall_mem_cons.mpr ⟨type, List.forall_mem_map.mpr typed⟩)
  | .member mark object key, ⟨objects, keys⟩ => by
    rw [bindExpr]
    refine (exprKeeps ofNone object objects).bind fun object' objects => ?_
    refine (keyKeeps key keys).bind fun key' keys => ?_
    refine (memberKeeps mark.span objects.type key').bind fun type regular => .pure ?_
    rw [Bound.Expr.nodes]
    exact (objects.append keys).node (List.forall_mem_singleton.mpr regular)
  | .grouping mark inner, numeric => by
    rw [bindExpr]
    refine (exprKeeps context inner numeric).bind fun inner' inners => .pure ?_
    rw [Bound.Expr.nodes]
    exact inners.node (List.forall_mem_singleton.mpr inners.type)

theorem argsKeep {types : List Ty} (regular : ∀ t ∈ types, t.Regular) : (args : List Arg) →
    argsWritten Literal.Numeric args → Keeps (bindArgs types args) fun bound =>
      Bound.Regular (Bound.argNodes bound) ∧ ∀ a ∈ bound, a.paramType.Regular
  | [], _ => by
    rw [bindArgs]
    exact .pure ⟨.nil, List.forall_mem_nil _⟩
  | .mk name value :: rest, ⟨numeric, others⟩ => by
    rw [bindArgs]
    have context : ∀ t ∈ types.head?, t.Regular := fun t here => regular t (List.mem_of_head? here)
    have tail : ∀ t ∈ types.tail, t.Regular := fun t held => regular t (List.mem_of_mem_tail held)
    refine (exprKeeps context value numeric).bind fun value' values => ?_
    refine (argsKeep tail rest others).bind fun args' ⟨arguments, typed⟩ => .pure ⟨?_, ?_⟩
    · rw [Bound.argNodes]
      exact values.append arguments
    · refine List.forall_mem_cons.mpr ⟨?_, typed⟩
      cases types with
      | nil => exact Ty.anyRegular
      | cons t rest => exact regular t List.mem_cons_self

theorem parametersKeep (span : Span) :
    (params : List Param) → paramsWritten Literal.Numeric params →
    Keeps (bindParams span params) fun bound =>
      Bound.Regular (Bound.paramNodes bound) ∧ ∀ p ∈ bound, p.symbol.type.Regular
  | [], _ => by
    rw [bindParams]
    exact .pure ⟨.nil, List.forall_mem_nil _⟩
  | .mk name t none :: rest, ⟨numeric, others⟩ => by
    rw [bindParams]
    refine ( annotationKeeps span numeric).bind fun type annotated => ?_
    have typed := givenRegular annotated Ty.anyRegular
    refine (Binder.defineKeeps typed name false).bind fun symbol same => ?_
    refine (parametersKeep span rest others).bind fun params ⟨defaults, regular⟩ => .pure ⟨?_, ?_⟩
    · rw [Bound.paramNodes]
      exact defaults
    · exact List.forall_mem_cons.mpr ⟨same ▸ typed, regular⟩
  | .mk name t (some default) :: rest, ⟨numeric, defaults, others⟩ => by
    rw [bindParams]
    refine ( annotationKeeps span numeric).bind fun type annotated => ?_
    have typed := givenRegular annotated Ty.anyRegular
    refine (exprKeeps (ofSome typed) default defaults).bind fun default' regular => ?_
    refine (Binder.defineKeeps typed name false).bind fun symbol same => ?_
    refine (parametersKeep span rest others).bind fun params ⟨defaults, regulars⟩ => .pure ⟨?_, ?_⟩
    · rw [Bound.paramNodes]
      exact regular.append defaults
    · exact List.forall_mem_cons.mpr ⟨same ▸ typed, regulars⟩

theorem keyKeeps : (key : Key) → key.Written Literal.Numeric →
    Keeps (bindKey key) fun bound => Bound.Regular bound.nodes
  | .known _, _ => by
    rw [bindKey]
    exact .pure .nil
  | .computed key, numeric => by
    rw [bindKey]
    refine (exprKeeps ofNone key numeric).bind fun _ regular => .pure ?_
    rw [Bound.Key.nodes]
    exact regular

theorem propertiesKeep {expected : Option Ty} (context : ∀ t ∈ expected, t.Regular) {shape : Shape}
    (known : shape.type.Regular) : (properties : List Property) →
    propertiesWritten Literal.Numeric properties →
    Keeps (bindProperties expected shape properties) fun bound =>
      Bound.Regular (Bound.propertyNodes bound.1) ∧ (∀ p ∈ bound.1, p.expected.Regular) ∧
        bound.2.type.Regular
  | [], _ => by
    rw [bindProperties]
    exact .pure ⟨.nil, List.forall_mem_nil _, known⟩
  | .mk key value :: rest, ⟨keys, numeric, others⟩ => by
    rw [bindProperties]
    refine (keyKeeps key keys).bind fun key' keys => ?_
    have contexts := contextualRegular context key'
    refine (exprKeeps contexts value numeric).bind fun value' values => ?_
    refine (propertyKeeps value'.span known key' values.type.widened).bind fun r ⟨grown, own⟩ => ?_
    refine (propertiesKeep context grown rest others).bind
      fun bound ⟨regular, typed, type⟩ => .pure ⟨?_, ?_, type⟩
    · rw [Bound.propertyNodes]
      exact (keys.append values).append regular
    · exact List.forall_mem_cons.mpr ⟨givenRegular contexts own, typed⟩

theorem blockKeeps : (b : Block) → b.Written Literal.Numeric →
    Keeps (bindBlock b) fun bound => Bound.Regular bound.nodes ∧ bound.type.Regular
  | .mk mark body, numeric => by
    rw [bindBlock]
    refine Binder.pushKeeps.bind fun _ _ => (stmtsKeep body numeric).bind fun body' regular => ?_
    have type := Bound.returnedRegular regular
    refine Binder.popKeeps.bind fun _ _ => .pure ⟨?_, type⟩
    rw [Bound.Block.nodes]
    exact regular.node (List.forall_mem_singleton.mpr type)

theorem stmtsKeep : (body : List Stmt) → stmtsWritten Literal.Numeric body →
    Keeps (bindStmts body) fun bound => Bound.Regular (Bound.stmtNodes bound)
  | [], _ => by
    rw [bindStmts]
    exact .pure .nil
  | s :: rest, ⟨first, others⟩ => by
    rw [bindStmts]
    refine (stmtKeeps s first).bind fun s' regular => ?_
    refine (stmtsKeep rest others).bind fun body' regulars => .pure ?_
    rw [Bound.stmtNodes]
    exact regular.append regulars

theorem stmtKeeps : (s : Stmt) → s.Written Literal.Numeric →
    Keeps (bindStmt s) fun bound => Bound.Regular bound.nodes
  | .letDecl mark name mutable t none, numeric => by
    rw [bindStmt]
    refine ( annotationKeeps mark.span numeric).bind fun type annotated => ?_
    refine (declaredKeeps mark name annotated ofNone).bind fun declared typed => ?_
    refine (Binder.defineKeeps typed name mutable).bind fun symbol same => .pure ?_
    rw [Bound.Stmt.nodes]
    exact Bound.Regular.nil.node (List.forall_mem_singleton.mpr (same ▸ typed))
  | .letDecl mark name mutable t (some init), ⟨numeric, inits⟩ => by
    rw [bindStmt]
    refine ( annotationKeeps mark.span numeric).bind fun type annotated => ?_
    refine (exprKeeps annotated init inits).bind fun init' regular => ?_
    refine (declaredKeeps mark name annotated (ofSome regular.type)).bind fun declared typed => ?_
    refine (Binder.defineKeeps typed name mutable).bind fun symbol same => .pure ?_
    rw [Bound.Stmt.nodes]
    exact regular.node (List.forall_mem_singleton.mpr (same ▸ typed))
  | .functionDecl mark name params ret body, ⟨taken, returned, bodies⟩ => by
    rw [bindStmt]
    refine ( annotationKeeps mark.span returned).bind fun declared annotated => ?_
    refine (signatureKeeps mark.span params taken).bind fun signature signed => ?_
    -- The function is defined twice: for its own body by what is declared of it, then by its type.
    have early := Ty.functionRegular signed (givenRegular annotated Ty.anyRegular)
    refine (Binder.defineKeeps early name false).bind fun _ _ => ?_
    refine Binder.pushKeeps.bind fun _ _ => ?_
    refine (parametersKeep body.mark.span params taken).bind fun params' ⟨defaults, typed⟩ => ?_
    refine (blockKeeps body bodies).bind fun body' ⟨bodies, type⟩ => ?_
    have final := functionTypeRegular typed (givenRegular annotated type)
    refine Binder.popKeeps.bind fun _ _ => (Binder.defineKeeps final name false).bind
      fun symbol same => .pure ?_
    rw [Bound.Stmt.nodes]
    refine (defaults.append bodies).node ?_
    exact functionTypes (same ▸ final) (ofSome (same ▸ final)) typed annotated
  | .typeAlias mark name t, numeric => by
    rw [bindStmt]
    refine (typeKeeps mark.span t numeric).bind fun type regular => ?_
    refine (Binder.defineTypeKeeps (regular.nameInterface name) name).bind fun _ _ => .pure ?_
    rw [Bound.Stmt.nodes]
    exact Bound.Regular.nil.node (List.forall_mem_nil _)
  | .ifElse mark condition thenBranch none, ⟨conditions, thens⟩ => by
    rw [bindStmt]
    refine (exprKeeps ofNone condition conditions).bind fun _ conditions => ?_
    refine (blockKeeps thenBranch thens).bind fun _ thens => .pure ?_
    rw [Bound.Stmt.nodes]
    exact (conditions.append thens.1).node (List.forall_mem_nil _)
  | .ifElse mark condition thenBranch (some elseBranch), ⟨conditions, thens, _, elses⟩ => by
    rw [bindStmt]
    refine (exprKeeps ofNone condition conditions).bind fun _ conditions => ?_
    refine (blockKeeps thenBranch thens).bind fun _ thens => ?_
    refine (stmtKeeps elseBranch elses).bind fun _ elses => .pure ?_
    rw [Bound.Stmt.nodes]
    exact ((conditions.append thens.1).append elses).node (List.forall_mem_nil _)
  | .whileLoop mark condition body, ⟨conditions, bodies⟩ => by
    rw [bindStmt]
    refine (exprKeeps ofNone condition conditions).bind fun _ conditions => ?_
    refine (blockKeeps body bodies).bind fun _ bodies => .pure ?_
    rw [Bound.Stmt.nodes]
    exact (conditions.append bodies.1).node (List.forall_mem_nil _)
  | .ret mark none, _ => by
    rw [bindStmt]
    refine .pure ?_
    rw [Bound.Stmt.nodes]
    exact Bound.Regular.nil.node (List.forall_mem_singleton.mpr (Ty.primitiveRegular .none))
  | .ret mark (some value), numeric => by
    rw [bindStmt]
    refine (exprKeeps ofNone value numeric).bind fun _ regular => .pure ?_
    rw [Bound.Stmt.nodes]
    exact regular.node (List.forall_mem_singleton.mpr regular.type)
  | .block body, numeric => by
    rw [bindStmt]
    refine (blockKeeps body numeric).bind fun _ regular => .pure ?_
    rw [Bound.Stmt.nodes]
    exact regular.1
  | .expr mark value, numeric => by
    rw [bindStmt]
    refine (exprKeeps ofNone value numeric).bind fun _ regular => .pure ?_
    rw [Bound.Stmt.nodes]
    exact regular.node (List.forall_mem_nil _)

end

theorem boundRegular {source : String} {program : Program}
    (parsed : parseSource source = .ok program) :
    Bound.Regular (Bound.stmtNodes (bind program).1) ∧
      (bindStmts program ⟨.initial, []⟩).2.symbols.Regular := by
  obtain ⟨known, made⟩ := stmtsKeep program (sourceNumeric parsed) ⟨.initial, []⟩ initialRegular
  exact ⟨made, known⟩

namespace Ty

/-- Types fit themselves, in particular all that a program which parses is bound with. -/
theorem assignableToSelf : (∀ t : Ty, t.Regular → t.assignableTo t = true) ∧
    ∀ (source : String) (program : Program), parseSource source = .ok program →
      Bound.Regular (Bound.stmtNodes (bind program).1) ∧
        (bindStmts program ⟨.initial, []⟩).2.symbols.Regular :=
  ⟨fun _ => selfFits, fun _ _ => boundRegular⟩

-- `("on" & (int | any) | { x: (1.5)[]; [string]: bool } & fn(a: none) -> Point<int>)`.
def layered : Ty :=
  parenthesized (union [
    intersection [literal (.string "on"), union [int, any]],
    intersection [
      interface .none [.mk (.name "x") (array (parenthesized (literal (.float 1.5)))) false]
        [.mk .string bool],
      function [.mk "a" none false] (named "Point" [int])]])

def modes : String :=
  "type Mode = \"on\" | 2.5;
  fn pick(m: (Mode | bool), o: { mode: Mode } & any): Mode[] { return 2.5; }"

theorem layeredFitsItself : layered.Regular ∧ layered.assignableTo layered = true ∧
    ∃ program, parseSource modes = .ok program ∧
      ∀ n ∈ Bound.stmtNodes (bind program).1, ∀ t ∈ n.types, t.assignableTo t = true := by
  have on : (intersection [literal (.string "on"), union [int, any]]).Regular := by
    refine intersectionRegular (List.forall_mem_cons.mpr ⟨literalRegular rfl, ?_⟩)
    refine List.forall_mem_singleton.mpr (unionRegular (List.cons_ne_nil _ _) ?_)
    exact List.forall_mem_cons.mpr
      ⟨primitiveRegular .int, List.forall_mem_singleton.mpr anyRegular⟩
  have half : (literal (.float 1.5)).Regular :=
    literalRegular (by change Float.isNaN _ = false; decide +kernel)
  have halves := arrayRegular (parenthesizedRegular half)
  have regular : layered.Regular := by
    refine parenthesizedRegular (unionRegular (List.cons_ne_nil _ _) ?_)
    refine List.forall_mem_cons.mpr ⟨on, List.forall_mem_singleton.mpr ?_⟩
    refine intersectionRegular (List.forall_mem_cons.mpr ⟨?_, List.forall_mem_singleton.mpr ?_⟩)
    · refine interfaceRegular (List.nodup_singleton _) (List.nodup_singleton _) ?_ ?_
      · exact List.forall_mem_singleton.mpr halves
      · exact List.forall_mem_singleton.mpr (primitiveRegular .bool)
    · refine functionRegular (List.forall_mem_singleton.mpr (primitiveRegular .none)) ?_
      exact namedRegular (List.forall_mem_singleton.mpr (primitiveRegular .int))
  obtain ⟨fits, made⟩ := assignableToSelf
  refine ⟨regular, fits layered regular, ?_⟩
  have accepted : (parseSource modes).isOk = true := by decide +kernel
  cases parsed : parseSource modes with
  | ok program =>
    obtain ⟨bound, -⟩ := made modes program parsed
    exact ⟨program, rfl, fun n held t inside => fits t (bound n held t inside)⟩
  | error e =>
    rw [parsed] at accepted
    cases accepted

end Ty

end Quill
