import Quill.Arguments
import Quill.Bound
import Quill.Diagnostic
import Quill.Intrinsic
import Quill.Ty.Print

/-! Binding: names and operators are resolved and types computed. A fault is reported and binding
goes on, so that every syntax node has a bound one. -/
namespace Quill

structure BindState where
  symbols : SymbolTable
  diagnostics : Diagnostics

abbrev Binder (α : Type) := StateM BindState α

namespace Binder

def report (d : Diagnostic) : Binder Unit :=
  modify fun s => { s with diagnostics := s.diagnostics ++ [d] }

def error (code : DiagnosticCode) (span : Span) (message : String) : Binder Unit :=
  report (.error code span message)

def define (name : String) (type : Ty) (mutable : Bool) : Binder VarSymbol := fun s =>
  let (symbol, symbols) := s.symbols.define name type mutable false
  (symbol, { s with symbols := symbols })

def defineType (name : String) (type : Ty) : Binder Unit :=
  modify fun s => { s with symbols := s.symbols.defineType name type }

def pushScope : Binder Unit := modify fun s => { s with symbols := s.symbols.push }

def popScope : Binder Unit := modify fun s => { s with symbols := s.symbols.pop }

def lookup (span : Span) (name : String) : Binder (Option VarSymbol) := do
  let found := (← get).symbols.lookup name
  if found.isNone then error .b0001 span ("symbol '" ++ name ++ "' not found")
  return found

def requireMutable (span : Span) (symbol : VarSymbol) : Binder Unit := do
  unless symbol.mutable do
    error .b0002 span ("cannot assign to immutable variable '" ++ symbol.name ++ "'")

end Binder

open Binder

def Literal.type : Literal → Ty
  | int n => .literal (.int n)
  | float x => .literal (.float x)
  | string s => .literal (.string s)
  | char c => .literal (.char c)
  | bool b => .literal (.bool b)
  | none => .none

structure Shape where
  members : List TyMember
  index : List TyIndex

namespace Shape

def empty : Shape := ⟨[], []⟩

def type (s : Shape) : Ty := .interface none s.members s.index

def addMember (s : Shape) (key : PropertyName) (type : Ty) (mutable : Bool) : Shape :=
  { s with members := insertMember s.members (.mk key type mutable) }

def addIndex (s : Shape) (kind : Primitive) (type : Ty) : Shape :=
  { s with index := insertIndex s.index (.mk kind type) }

end Shape

def addIndexSignature (span : Span) (shape : Shape) (key type : Ty) : Binder Shape := do
  match key.unwrapParens with
  | .primitive .string => return shape.addIndex .string type
  | .primitive .int => return shape.addIndex .int type
  | other =>
    error .b0006 span ("index signature key '" ++ other.text ++ "' must be string or int")
    return shape

mutual

def resolveType (span : Span) : TypeExpr → Binder Ty
  | .named name args => do
    if name = "any" then return .any
    match Primitive.ofName? name with
    | some p => return .primitive p
    | none =>
      match (← get).symbols.lookupType name with
      | some known => return known
      | none => return .named name (← resolveTypes span args)
  | .literal value => return value.type
  | .array element => return .array (← resolveType span element)
  | .function params ret => do
    let params ← resolveParams span 0 params
    return .function params (← resolveType span ret)
  | .interface members => return (← resolveMembers span .empty members).type
  | .union members => return .unionOf (← resolveTypes span members)
  | .intersection members => return .intersection (← resolveTypes span members)
  | .parenthesized inner => return .parenthesized (← resolveType span inner)

def resolveTypes (span : Span) : List TypeExpr → Binder (List Ty)
  | [] => return []
  | t :: rest => do
    let type ← resolveType span t
    return type :: (← resolveTypes span rest)

def resolveParams (span : Span) (n : Nat) : List TypeParam → Binder (List TyParam)
  | [] => return []
  | .mk name t isOptional :: rest => do
    let type ← resolveType span t
    let param := TyParam.mk (name.getD ("_" ++ toString n)) type isOptional
    return param :: (← resolveParams span (n + 1) rest)

def resolveMembers (span : Span) (shape : Shape) : List TypeMember → Binder Shape
  | [] => return shape
  | .property key t mutable :: rest => do
    let type ← resolveType span t
    resolveMembers span (shape.addMember key type mutable) rest
  | .index key t :: rest => do
    let keyType ← resolveType span key
    let type ← resolveType span t
    resolveMembers span (← addIndexSignature span shape keyType type) rest

end

def resolveAnnotation (span : Span) : Option TypeExpr → Binder (Option Ty)
  | none => return none
  | some t => return some (← resolveType span t)

def resolveSignature (span : Span) : List Param → Binder (List TyParam)
  | [] => return []
  | .mk name t default :: rest => do
    let type := (← resolveAnnotation span t).getD .any
    return .mk name type default.isSome :: (← resolveSignature span rest)

/-- The result of an operator is unknown if an operand is. -/
def resultType (operands : List Ty) (result : Ty) : Ty :=
  if operands.any Ty.isAny then .any else result

def Ty.asKey? (t : Ty) : Option PropertyName :=
  match t.unwrapParens with
  | .literal (.string s) => some (.name s)
  | .literal (.int n) => some (.int n)
  | _ => .none

def Ty.indexKind? (t : Ty) : Option Primitive :=
  if t.assignableTo .string then some .string
  else if t.assignableTo .int then some .int
  else .none

def indexType (index : List TyIndex) (kind : Primitive) : Option Ty :=
  (index.find? (·.kind = kind)).map (·.type)

def Bound.Key.name? : Bound.Key → Option PropertyName
  | .known name => some name
  | .computed key => key.type.asKey?

def Bound.Key.type : Bound.Key → Ty
  | .known _ => .any
  | .computed key => key.type

def memberType (members : List TyMember) (index : List TyIndex) (key : Bound.Key) : Option Ty :=
  match key.name? with
  | some name => lookupMember members index name
  | none =>
    if key.type.isAny then some .any
    else key.type.indexKind?.bind (indexType index)

def contextual (expected : Option Ty) (key : Bound.Key) : Option Ty := do
  match (← expected).unwrapParens with
  | .interface _ members index => lookupMember members index (← key.name?)
  | _ => none

/-- Adds a property with a value of the given type, and gives the type that the value has to fit
where the context asks for nothing else. -/
def addProperty (span : Span) (shape : Shape) (key : Bound.Key) (value : Ty) :
    Binder (Shape × Ty) := do
  match key.name? with
  | some name => return (shape.addMember name value false, value)
  | none =>
    match key.type.indexKind? with
    | some kind =>
      let merged := match indexType shape.index kind with
        | some existing => .unionOf [existing, value]
        | none => value
      return (shape.addIndex kind merged, merged)
    | none =>
      error .b0006 span ("object key of type '" ++ key.type.text ++ "' must be string or int")
      return (shape, .any)

def bindMember (span : Span) (object : Ty) (key : Bound.Key) : Binder Ty := do
  match object.unwrapParens with
  | .any => return .any
  | .interface _ members index =>
    match memberType members index key with
    | some type => return type
    | none =>
      let what := match key.name? with
        | some name => "'" ++ name.text ++ "'"
        | none => "computed member"
      error .b0009 span (what ++ " does not exist on type '" ++ object.text ++ "'")
      return .any
  | other =>
    error .b0009 span ("type '" ++ other.text ++ "' has no members")
    return .any

def argType (params : List TyParam) (count : Nat) : ArgMatch → Ty × Option String
  | .param index => ((params[index]?.map (·.type)).getD .any, none)
  | .surplus =>
    (.any, some s!"expected at most {params.length} argument(s), found {count}")
  | .unknown name => (.any, some ("no parameter named '" ++ name ++ "'"))
  | .again index =>
    let name := (params[index]?.map (·.name)).getD ""
    (.any, some ("parameter '" ++ name ++ "' given more than once"))

def missingParams (params : List TyParam) (filled : List Nat) : List TyParam :=
  (params.zipIdx.filter fun (p, i) => !p.hasDefault && i ∉ filled).map (·.1)

/-- The types that the arguments of a call have to fit; `any` for those out of place. -/
def matchCall (span : Span) (params : List TyParam) (args : List Arg) : Binder (List Ty) := do
  let matched := matchArguments (params.map (·.name)) (args.map (·.name))
  let placed := matched.map (argType params args.length)
  for message in placed.filterMap (·.2) do error .b0008 span message
  for param in missingParams params (matched.filterMap ArgMatch.index?) do
    error .b0008 span ("missing argument for parameter '" ++ param.name ++ "'")
  return placed.map (·.1)

def bindCallee (span : Span) (callee : Ty) (args : List Arg) : Binder (List Ty × Ty) := do
  match callee.unwrapParens with
  | .function params ret => return (← matchCall span params args, ret)
  | other =>
    unless other.isAny do
      error .b0007 span ("value of type '" ++ other.text ++ "' is not callable")
    return ([], .any)

def bindStep (mark : Mark) (op : StepOp) (name : String) : Binder Bound.Expr := do
  let failed := Bound.Expr.step ⟨mark, .any⟩ op name none
  match ← lookup mark.span name with
  | none => return failed
  | some symbol =>
    requireMutable mark.span symbol
    match Operators.resolveStep op symbol.type with
    | some row =>
      return .step ⟨mark, resultType [symbol.type] row.operand⟩ op name (some (row, symbol))
    | none =>
      error .b0005 mark.span
        ("operator '" ++ op.text ++ "' cannot be applied to '" ++ symbol.type.text ++ "'")
      return failed

def bindBinary (mark : Mark) (op : BinaryOp) (left right : Bound.Expr) : Binder Bound.Expr := do
  match Operators.resolveBinary op left.type right.type with
  | some row =>
    let type := resultType [left.type, right.type] row.result
    return .binary ⟨mark, type⟩ op (some row) left right
  | none =>
    error .b0003 mark.span ("operator '" ++ op.text ++ "' cannot be applied to '" ++
      left.type.text ++ "' and '" ++ right.type.text ++ "'")
    return .binary ⟨mark, .any⟩ op none left right

def bindUnary (mark : Mark) (op : UnaryOp) (operand : Bound.Expr) : Binder Bound.Expr := do
  match Operators.resolveUnary op operand.type with
  | some row =>
    return .unary ⟨mark, resultType [operand.type] row.result⟩ op (some row) operand
  | none =>
    error .b0004 mark.span
      ("operator '" ++ op.text ++ "' cannot be applied to '" ++ operand.type.text ++ "'")
    return .unary ⟨mark, .any⟩ op none operand

def bindAssign (mark : Mark) (name : String) (op : Option BinaryOp) (found : Option VarSymbol)
    (value : Bound.Expr) : Binder Bound.Expr := do
  match found with
  | none => return .assign ⟨mark, .any⟩ name op none value
  | some symbol =>
    requireMutable mark.span symbol
    match op with
    | none => return .assign ⟨mark, value.type⟩ name none (some ⟨symbol, none⟩) value
    | some binary =>
      match Operators.resolveBinary binary symbol.type value.type with
      | some row =>
        let type := resultType [symbol.type, value.type] row.result
        return .assign ⟨mark, type⟩ name op (some ⟨symbol, some row⟩) value
      | none =>
        error .b0003 mark.span ("operator '" ++ binary.text ++ "=' cannot be applied to '" ++
          symbol.type.text ++ "' and '" ++ value.type.text ++ "'")
        return .assign ⟨mark, .any⟩ name op none value

def declaredType (mark : Mark) (name : String) (annotated : Option Ty)
    (init : Option Bound.Expr) : Binder Ty := do
  match annotated, init with
  | some type, _ => return type
  | none, some init => return init.type.widen
  | none, none =>
    report (.warn .b0010 mark.span
      ("'" ++ name ++ "' has no type annotation or initializer; assuming any"))
    return .any

/-- An interface takes the name of its first alias. -/
def nameInterface (name : String) : Ty → Ty
  | .interface none members index => .interface (some name) members index
  | t => t

def functionType (params : List Bound.Param) (ret : Ty) : Ty :=
  .function (params.map fun p => .mk p.symbol.name p.symbol.type p.default.isSome) ret

mutual

def bindExpr (expected : Option Ty) : Expr → Binder Bound.Expr
  | .literal mark value => return .literal ⟨mark, value.type⟩ value
  | .ident mark name => do
    let symbol ← lookup mark.span name
    return .ident ⟨mark, (symbol.map (·.type)).getD .any⟩ name symbol
  | .binary mark op left right => do
    let left ← bindExpr none left
    let right ← bindExpr none right
    bindBinary mark op left right
  | .unary mark op operand => do bindUnary mark op (← bindExpr none operand)
  | .step mark op name _ => bindStep mark op name
  | .assign mark name op value => do
    let found ← lookup mark.span name
    let value ← bindExpr (found.map (·.type)) value
    bindAssign mark name op found value
  | .call mark callee args => do
    let callee ← bindExpr none callee
    let (types, type) ← bindCallee mark.span callee.type args
    return .call ⟨mark, type⟩ callee (← bindArgs types args)
  | .function mark params ret body => do
    let declared ← resolveAnnotation mark.span ret
    pushScope
    let params ← bindParams body.mark.span params
    let body ← bindBlock body
    popScope
    let type := functionType params (declared.getD body.type)
    return .function ⟨mark, type⟩ params declared body
  | .object mark properties => do
    let (properties, shape) ← bindProperties expected .empty properties
    return .object ⟨mark, shape.type⟩ properties
  | .member mark object key => do
    let object ← bindExpr none object
    let key ← bindKey key
    return .member ⟨mark, ← bindMember mark.span object.type key⟩ object key
  | .grouping mark inner => do
    let inner ← bindExpr expected inner
    return .grouping ⟨mark, inner.type⟩ inner

def bindArgs (types : List Ty) : List Arg → Binder (List Bound.Arg)
  | [] => return []
  | .mk name value :: rest => do
    let value ← bindExpr types.head? value
    return .mk name value (types.headD .any) :: (← bindArgs types.tail rest)

def bindParams (span : Span) : List Param → Binder (List Bound.Param)
  | [] => return []
  | .mk name t none :: rest => do
    let type := (← resolveAnnotation span t).getD .any
    let symbol ← define name type false
    return .mk symbol none :: (← bindParams span rest)
  | .mk name t (some default) :: rest => do
    let type := (← resolveAnnotation span t).getD .any
    let default ← bindExpr (some type) default
    let symbol ← define name type false
    return .mk symbol (some default) :: (← bindParams span rest)

def bindKey : Key → Binder Bound.Key
  | .known name => return .known name
  | .computed key => return .computed (← bindExpr none key)

def bindProperties (expected : Option Ty) (shape : Shape) :
    List Property → Binder (List Bound.Property × Shape)
  | [] => return ([], shape)
  | .mk key value :: rest => do
    let key ← bindKey key
    let context := contextual expected key
    let value ← bindExpr context value
    let (shape, own) ← addProperty value.span shape key value.type.widen
    let (properties, shape) ← bindProperties expected shape rest
    return (.mk key value (context.getD own) :: properties, shape)

def bindStmt : Stmt → Binder Bound.Stmt
  | .letDecl mark name mutable t none => do
    let annotated ← resolveAnnotation mark.span t
    let type ← declaredType mark name annotated none
    return .letDecl mark (← define name type mutable) none
  | .letDecl mark name mutable t (some init) => do
    let annotated ← resolveAnnotation mark.span t
    let init ← bindExpr annotated init
    let type ← declaredType mark name annotated (some init)
    return .letDecl mark (← define name type mutable) (some init)
  | .functionDecl mark name params ret body => do
    let declared ← resolveAnnotation mark.span ret
    let signature ← resolveSignature mark.span params
    -- The body sees the function with what is declared of it.
    let _ ← define name (.function signature (declared.getD .any)) false
    pushScope
    let params ← bindParams body.mark.span params
    let body ← bindBlock body
    popScope
    let symbol ← define name (functionType params (declared.getD body.type)) false
    return .functionDecl mark symbol params declared body
  | .typeAlias mark name t => do
    defineType name (nameInterface name (← resolveType mark.span t))
    return .typeAlias mark
  | .ifElse mark condition thenBranch none => do
    let condition ← bindExpr none condition
    return .ifElse mark condition (← bindBlock thenBranch) none
  | .ifElse mark condition thenBranch (some elseBranch) => do
    let condition ← bindExpr none condition
    let thenBranch ← bindBlock thenBranch
    return .ifElse mark condition thenBranch (some (← bindStmt elseBranch))
  | .whileLoop mark condition body => do
    let condition ← bindExpr none condition
    return .whileLoop mark condition (← bindBlock body)
  | .ret mark none => return .ret mark none
  | .ret mark (some value) => return .ret mark (some (← bindExpr none value))
  | .block body => return .block (← bindBlock body)
  | .expr mark value => return .expr mark (← bindExpr none value)

def bindBlock : Block → Binder Bound.Block
  | .mk mark body => do
    pushScope
    let body ← bindStmts body
    popScope
    return .mk mark (Bound.returnedType body) body

def bindStmts : List Stmt → Binder (List Bound.Stmt)
  | [] => return []
  | s :: rest => do
    let s ← bindStmt s
    return s :: (← bindStmts rest)

end

def SymbolTable.initial : SymbolTable :=
  Intrinsic.all.foldl (fun t i => (t.define i.name i.signature false true).2) .new

def bind (program : Program) : Bound.Program × Diagnostics :=
  let (bound, state) := bindStmts program ⟨.initial, []⟩
  (bound, state.diagnostics)

end Quill
