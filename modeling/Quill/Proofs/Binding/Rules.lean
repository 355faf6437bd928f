import Quill.Bind

/-! The rules that binding without errors follows: for each kind of node, what it is bound to where
its names and operators resolve, and the static scopes behind it. -/
namespace Quill

def Binder.Yields {α : Type} (b : Binder α) (t : SymbolTable) (a : α) (u : SymbolTable) : Prop :=
  ∃ ds ds', b ⟨t, ds⟩ = (a, ⟨u, ds'⟩) ∧ ds'.hasErrors = false

mutual

/-- Only what an object literal is bound to depends on the type that is expected. -/
inductive ExprBinds : Option Ty → SymbolTable → Expr → Bound.Expr → SymbolTable → Prop where
  | literal {expected : Option Ty} {t : SymbolTable} (mark : Mark) (value : Literal) :
      ExprBinds expected t (.literal mark value) (.literal ⟨mark, value.type⟩ value) t
  | ident {expected : Option Ty} {t : SymbolTable} (mark : Mark) {name : String}
      {symbol : VarSymbol} (found : t.lookup name = some symbol) :
      ExprBinds expected t (.ident mark name) (.ident ⟨mark, symbol.type⟩ name (some symbol)) t
  | binary {expected : Option Ty} {t t' u : SymbolTable} (mark : Mark) {op : BinaryOp}
      {left right : Expr} {left' right' : Bound.Expr} {row : BinaryRow}
      (lefts : ExprBinds none t left left' t') (rights : ExprBinds none t' right right' u)
      (resolved : Operators.resolveBinary op left'.type right'.type = some row) :
      ExprBinds expected t (.binary mark op left right)
        (.binary ⟨mark, resultType [left'.type, right'.type] row.result⟩ op (some row) left' right')
        u
  | unary {expected : Option Ty} {t u : SymbolTable} (mark : Mark) {op : UnaryOp} {operand : Expr}
      {operand' : Bound.Expr} {row : UnaryRow} (operands : ExprBinds none t operand operand' u)
      (resolved : Operators.resolveUnary op operand'.type = some row) :
      ExprBinds expected t (.unary mark op operand)
        (.unary ⟨mark, resultType [operand'.type] row.result⟩ op (some row) operand') u
  | step {expected : Option Ty} {t : SymbolTable} (mark : Mark) {op : StepOp} {name : String}
      (variableMark : Mark) {symbol : VarSymbol} {row : StepRow}
      (found : t.lookup name = some symbol) (mutable : symbol.mutable)
      (resolved : Operators.resolveStep op symbol.type = some row) :
      ExprBinds expected t (.step mark op name variableMark)
        (.step ⟨mark, resultType [symbol.type] row.operand⟩ op name (some (row, symbol))) t
  | assign {expected : Option Ty} {t u : SymbolTable} (mark : Mark) {name : String}
      {symbol : VarSymbol} {value : Expr} {value' : Bound.Expr}
      (found : t.lookup name = some symbol) (mutable : symbol.mutable)
      (values : ExprBinds (some symbol.type) t value value' u) :
      ExprBinds expected t (.assign mark name none value)
        (.assign ⟨mark, value'.type⟩ name none (some ⟨symbol, none⟩) value') u
  | update {expected : Option Ty} {t u : SymbolTable} (mark : Mark) {name : String}
      {op : BinaryOp} {symbol : VarSymbol} {value : Expr} {value' : Bound.Expr} {row : BinaryRow}
      (found : t.lookup name = some symbol) (mutable : symbol.mutable)
      (values : ExprBinds (some symbol.type) t value value' u)
      (resolved : Operators.resolveBinary op symbol.type value'.type = some row) :
      ExprBinds expected t (.assign mark name (some op) value)
        (.assign ⟨mark, resultType [symbol.type, value'.type] row.result⟩ name (some op)
          (some ⟨symbol, some row⟩) value') u
  | call {expected : Option Ty} {t t' u : SymbolTable} (mark : Mark) {callee : Expr}
      {callee' : Bound.Expr} {args : List Arg} {args' : List Bound.Arg} {types : List Ty}
      {type : Ty} (callees : ExprBinds none t callee callee' t')
      (called : (bindCallee mark.span callee'.type args).Yields t' (types, type) t')
      (given : ArgsBind types t' args args' u) :
      ExprBinds expected t (.call mark callee args) (.call ⟨mark, type⟩ callee' args') u
  | function {expected : Option Ty} {t t' u : SymbolTable} (mark : Mark) {params : List Param}
      {params' : List Bound.Param} {ret : Option TypeExpr} {declared : Option Ty} {body : Block}
      {body' : Bound.Block} (annotated : ( resolveAnnotation mark.span ret).Yields t declared t)
      (taken : ParamsBind body.mark.span t.push params params' t')
      (bodies : BlockBinds t' body body' u) :
      ExprBinds expected t (.function mark params ret body)
        (.function ⟨mark, functionType params' (declared.getD body'.type)⟩ params' declared body')
        u.pop
  | object {expected : Option Ty} {t u : SymbolTable} (mark : Mark) {properties : List Property}
      {properties' : List Bound.Property} {shape : Shape}
      (listed : PropertiesBind expected .empty t properties properties' shape u) :
      ExprBinds expected t (.object mark properties) (.object ⟨mark, shape.type⟩ properties') u
  | member {expected : Option Ty} {t t' u : SymbolTable} (mark : Mark) {object : Expr}
      {object' : Bound.Expr} {key : Key} {key' : Bound.Key} {type : Ty}
      (objects : ExprBinds none t object object' t') (keys : KeyBinds t' key key' u)
      (read : (bindMember mark.span object'.type key').Yields u type u) :
      ExprBinds expected t (.member mark object key) (.member ⟨mark, type⟩ object' key') u
  | grouping {expected : Option Ty} {t u : SymbolTable} (mark : Mark) {inner : Expr}
      {inner' : Bound.Expr} (inners : ExprBinds expected t inner inner' u) :
      ExprBinds expected t (.grouping mark inner) (.grouping ⟨mark, inner'.type⟩ inner') u

inductive ArgsBind : List Ty → SymbolTable → List Arg → List Bound.Arg → SymbolTable → Prop where
  | nil {types : List Ty} {t : SymbolTable} : ArgsBind types t [] [] t
  | cons {types : List Ty} {t t' u : SymbolTable} (name : Option String) {value : Expr}
      {value' : Bound.Expr} {rest : List Arg} {rest' : List Bound.Arg}
      (values : ExprBinds types.head? t value value' t') (others : ArgsBind types.tail t' rest rest' u) :
      ArgsBind types t (.mk name value :: rest) (.mk name value' (types.headD .any) :: rest') u

inductive ParamsBind : Span → SymbolTable → List Param → List Bound.Param → SymbolTable → Prop where
  | nil {span : Span} {t : SymbolTable} : ParamsBind span t [] [] t
  | required {span : Span} {t u : SymbolTable} (name : String) {type : Option TypeExpr}
      {annotated : Option Ty} {rest : List Param} {rest' : List Bound.Param}
      (resolved : ( resolveAnnotation span type).Yields t annotated t)
      (others : ParamsBind span (t.define name (annotated.getD .any) false false).2 rest rest' u) :
      ParamsBind span t (.mk name type none :: rest)
        (.mk (t.define name (annotated.getD .any) false false).1 none :: rest') u
  | optional {span : Span} {t t' u : SymbolTable} (name : String) {type : Option TypeExpr}
      {annotated : Option Ty} {default : Expr} {default' : Bound.Expr} {rest : List Param}
      {rest' : List Bound.Param} (resolved : ( resolveAnnotation span type).Yields t annotated t)
      (defaults : ExprBinds (some (annotated.getD .any)) t default default' t')
      (others : ParamsBind span (t'.define name (annotated.getD .any) false false).2 rest rest' u) :
      ParamsBind span t (.mk name type (some default) :: rest)
        (.mk (t'.define name (annotated.getD .any) false false).1 (some default') :: rest') u

inductive KeyBinds : SymbolTable → Key → Bound.Key → SymbolTable → Prop where
  | known {t : SymbolTable} (name : PropertyName) : KeyBinds t (.known name) (.known name) t
  | computed {t u : SymbolTable} {key : Expr} {key' : Bound.Expr}
      (keys : ExprBinds none t key key' u) : KeyBinds t (.computed key) (.computed key') u

inductive PropertiesBind : Option Ty → Shape → SymbolTable → List Property → List Bound.Property →
    Shape → SymbolTable → Prop where
  | nil {expected : Option Ty} {shape : Shape} {t : SymbolTable} :
      PropertiesBind expected shape t [] [] shape t
  | cons {expected : Option Ty} {shape shape' last : Shape} {t t₁ t₂ u : SymbolTable} {key : Key}
      {key' : Bound.Key} {value : Expr} {value' : Bound.Expr} {own : Ty} {rest : List Property}
      {rest' : List Bound.Property} (keys : KeyBinds t key key' t₁)
      (values : ExprBinds (contextual expected key') t₁ value value' t₂)
      (added : (addProperty value'.span shape key' value'.type.widen).Yields t₂ (shape', own) t₂)
      (others : PropertiesBind expected shape' t₂ rest rest' last u) :
      PropertiesBind expected shape t (.mk key value :: rest)
        (.mk key' value' ((contextual expected key').getD own) :: rest') last u

inductive StmtBinds : SymbolTable → Stmt → Bound.Stmt → SymbolTable → Prop where
  | uninitialized {t : SymbolTable} (mark : Mark) (name : String) (mutable : Bool)
      {type : Option TypeExpr} {annotated : Option Ty}
      (resolved : ( resolveAnnotation mark.span type).Yields t annotated t) :
      StmtBinds t (.letDecl mark name mutable type none)
        (.letDecl mark (t.define name (annotated.getD .any) mutable false).1 none)
        (t.define name (annotated.getD .any) mutable false).2
  | initialized {t t' : SymbolTable} (mark : Mark) (name : String) (mutable : Bool)
      {type : Option TypeExpr} {annotated : Option Ty} {init : Expr} {init' : Bound.Expr}
      (resolved : ( resolveAnnotation mark.span type).Yields t annotated t)
      (inits : ExprBinds annotated t init init' t') :
      StmtBinds t (.letDecl mark name mutable type (some init))
        (.letDecl mark (t'.define name (annotated.getD init'.type.widen) mutable false).1
          (some init'))
        (t'.define name (annotated.getD init'.type.widen) mutable false).2
  | functionDecl {t t' u : SymbolTable} (mark : Mark) (name : String) {params : List Param}
      {params' : List Bound.Param} {ret : Option TypeExpr} {declared : Option Ty}
      {signature : List TyParam} {body : Block} {body' : Bound.Block}
      (annotated : ( resolveAnnotation mark.span ret).Yields t declared t)
      (signed : (resolveSignature mark.span params).Yields t signature t)
      (taken : ParamsBind body.mark.span
        (t.define name (.function signature (declared.getD .any)) false false).2.push params params'
        t')
      (bodies : BlockBinds t' body body' u) :
      StmtBinds t (.functionDecl mark name params ret body)
        (.functionDecl mark
          (u.pop.define name (functionType params' (declared.getD body'.type)) false false).1
          params' declared body')
        (u.pop.define name (functionType params' (declared.getD body'.type)) false false).2
  | typeAlias {t : SymbolTable} (mark : Mark) (name : String) {written : TypeExpr} {type : Ty}
      (resolved : (resolveType mark.span written).Yields t type t) :
      StmtBinds t (.typeAlias mark name written) (.typeAlias mark)
        (t.defineType name (nameInterface name type))
  | branch {t t' u : SymbolTable} (mark : Mark) {condition : Expr} {condition' : Bound.Expr}
      {thenBranch : Block} {thenBranch' : Bound.Block}
      (conditions : ExprBinds none t condition condition' t')
      (thens : BlockBinds t' thenBranch thenBranch' u) :
      StmtBinds t (.ifElse mark condition thenBranch none)
        (.ifElse mark condition' thenBranch' none) u
  | choice {t t₁ t₂ u : SymbolTable} (mark : Mark) {condition : Expr} {condition' : Bound.Expr}
      {thenBranch : Block} {thenBranch' : Bound.Block} {elseBranch : Stmt}
      {elseBranch' : Bound.Stmt} (conditions : ExprBinds none t condition condition' t₁)
      (thens : BlockBinds t₁ thenBranch thenBranch' t₂)
      (elses : StmtBinds t₂ elseBranch elseBranch' u) :
      StmtBinds t (.ifElse mark condition thenBranch (some elseBranch))
        (.ifElse mark condition' thenBranch' (some elseBranch')) u
  | loop {t t' u : SymbolTable} (mark : Mark) {condition : Expr} {condition' : Bound.Expr}
      {body : Block} {body' : Bound.Block} (conditions : ExprBinds none t condition condition' t')
      (bodies : BlockBinds t' body body' u) :
      StmtBinds t (.whileLoop mark condition body) (.whileLoop mark condition' body') u
  | bare {t : SymbolTable} (mark : Mark) : StmtBinds t (.ret mark none) (.ret mark none) t
  | ret {t u : SymbolTable} (mark : Mark) {value : Expr} {value' : Bound.Expr}
      (values : ExprBinds none t value value' u) :
      StmtBinds t (.ret mark (some value)) (.ret mark (some value')) u
  | block {t u : SymbolTable} {body : Block} {body' : Bound.Block}
      (bodies : BlockBinds t body body' u) : StmtBinds t (.block body) (.block body') u
  | expr {t u : SymbolTable} (mark : Mark) {value : Expr} {value' : Bound.Expr}
      (values : ExprBinds none t value value' u) :
      StmtBinds t (.expr mark value) (.expr mark value') u

inductive BlockBinds : SymbolTable → Block → Bound.Block → SymbolTable → Prop where
  | mk {t u : SymbolTable} (mark : Mark) {body : List Stmt} {body' : List Bound.Stmt}
      (bodies : StmtsBind t.push body body' u) :
      BlockBinds t (.mk mark body) (.mk mark (Bound.returnedType body') body') u.pop

inductive StmtsBind : SymbolTable → List Stmt → List Bound.Stmt → SymbolTable → Prop where
  | nil {t : SymbolTable} : StmtsBind t [] [] t
  | cons {t t' u : SymbolTable} {s : Stmt} {s' : Bound.Stmt} {rest : List Stmt}
      {rest' : List Bound.Stmt} (first : StmtBinds t s s' t') (others : StmtsBind t' rest rest' u) :
      StmtsBind t (s :: rest) (s' :: rest') u

end

end Quill
