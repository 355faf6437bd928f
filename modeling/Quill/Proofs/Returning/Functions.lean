import Quill.Check
import Quill.Proofs.Binding.Clean
import Quill.Proofs.Typing.Generated

/-! The functions of bound programs, wherever they are written. Of a program that the binder and the
checker accept they accept each function, in the static scopes that it is written in. -/
namespace Quill

namespace Bound

structure Function where
  params : List Param
  declared : Option Ty
  body : Block

def Function.code (g : Function) : Code :=
  g.body.code ++ [instr g.body.mark .pushNone, instr g.body.mark .ret]

mutual

def Expr.functions : Expr → List Function
  | .literal .. | .ident .. | .step .. => []
  | .binary _ _ _ left right => left.functions ++ right.functions
  | .unary _ _ _ value | .assign _ _ _ _ value | .grouping _ value => value.functions
  | .call _ callee args => callee.functions ++ argFunctions args
  | .function _ params declared body =>
    ⟨params, declared, body⟩ :: (paramFunctions params ++ body.functions)
  | .object _ properties => propertyFunctions properties
  | .member _ base key => base.functions ++ key.functions

def argFunctions : List Arg → List Function
  | [] => []
  | .mk _ value _ :: rest => value.functions ++ argFunctions rest

def paramFunctions : List Param → List Function
  | [] => []
  | .mk _ none :: rest => paramFunctions rest
  | .mk _ (some default) :: rest => default.functions ++ paramFunctions rest

def Key.functions : Key → List Function
  | .known _ => []
  | .computed key => key.functions

def propertyFunctions : List Property → List Function
  | [] => []
  | .mk key value _ :: rest => key.functions ++ (value.functions ++ propertyFunctions rest)

def Stmt.functions : Stmt → List Function
  | .letDecl _ _ none | .typeAlias _ | .ret _ none => []
  | .letDecl _ _ (some value) | .ret _ (some value) | .expr _ value => value.functions
  | .functionDecl _ _ params declared body =>
    ⟨params, declared, body⟩ :: (paramFunctions params ++ body.functions)
  | .ifElse _ condition thenBranch none => condition.functions ++ thenBranch.functions
  | .ifElse _ condition thenBranch (some elseBranch) =>
    condition.functions ++ (thenBranch.functions ++ elseBranch.functions)
  | .whileLoop _ condition body => condition.functions ++ body.functions
  | .block body => body.functions

def Block.functions : Block → List Function
  | .mk _ _ body => stmtFunctions body

def stmtFunctions : List Stmt → List Function
  | [] => []
  | s :: rest => s.functions ++ stmtFunctions rest

end

/-- It has been bound in some static scopes, and the checker has no objection to it. -/
structure Function.Accepted (g : Function) : Prop where
  bound : ∃ span t t' u params body,
    ParamsBind span (SymbolTable.push t) params g.params t' ∧ BlockBinds t' body g.body u
  checked : (checkBlock g.body).hasErrors = false
  returns : (checkReturns g.declared g.body).hasErrors = false
  short : Short g.code

end Bound

open Bound

mutual

theorem exprFunctions {expected : Option Ty} {t u : SymbolTable} {e : Expr} {b : Bound.Expr} :
    ExprBinds expected t e b u → (checkExpr b).hasErrors = false → Short b.code →
    ∀ g ∈ b.functions, g.Accepted
  | .literal .., _, _ | .ident .., _, _ | .step .., _, _ => nofun
  | .binary _ lefts rights _, clean, short => by
    rw [checkExpr] at clean
    rw [Bound.Expr.code] at short
    obtain ⟨clean, -⟩ := Diagnostics.cleanParts (Diagnostics.cleanParts clean).1
    obtain ⟨cleanLeft, cleanRight⟩ := Diagnostics.cleanParts clean
    obtain ⟨shortLeft, shortRight⟩ := short.append.1.append
    rw [Bound.Expr.functions]
    exact List.forall_mem_append.mpr
      ⟨exprFunctions lefts cleanLeft shortLeft, exprFunctions rights cleanRight shortRight⟩
  | .unary _ operands _, clean, short => by
    rw [checkExpr] at clean
    rw [Bound.Expr.code] at short
    rw [Bound.Expr.functions]
    exact exprFunctions operands (Diagnostics.cleanParts clean).1 short.append.1
  | .assign _ _ _ values, clean, short => by
    rw [checkExpr] at clean
    rw [Bound.Expr.code] at short
    rw [Bound.Expr.functions]
    exact exprFunctions values (Diagnostics.cleanParts clean).1 short.append.1
  | .update _ _ _ values _, clean, short => by
    rw [checkExpr] at clean
    rw [Bound.Expr.code] at short
    rw [Bound.Expr.functions]
    exact exprFunctions values (Diagnostics.cleanParts clean).1 short.append.1.append.1.append.2
  | .call _ callees _ given, clean, short => by
    rw [checkExpr] at clean
    rw [Bound.Expr.code] at short
    obtain ⟨cleanCallee, cleanArgs⟩ := Diagnostics.cleanParts (Diagnostics.cleanParts clean).1
    have operands := short.append.2.head.1
    rw [Instr.operand, Operand.longest] at operands
    rw [Bound.Expr.functions]
    exact List.forall_mem_append.mpr
      ⟨exprFunctions callees cleanCallee short.append.1, argsFunctions given cleanArgs operands⟩
  | .function _ _ taken bodies, clean, short => by
    rw [checkExpr] at clean
    rw [Bound.Expr.code] at short
    obtain ⟨clean, returns⟩ := Diagnostics.cleanParts clean
    obtain ⟨cleanParams, cleanBody⟩ := Diagnostics.cleanParts (Diagnostics.cleanParts clean).1
    obtain ⟨shortParams, shortBody⟩ := procShort short
    rw [Bound.Expr.functions]
    refine List.forall_mem_cons.mpr ⟨?_, List.forall_mem_append.mpr ⟨?_, ?_⟩⟩
    · exact ⟨⟨_, _, _, _, _, _, taken, bodies⟩, cleanBody, returns, shortBody⟩
    · exact paramsFunctions taken cleanParams shortParams
    · exact blockFunctions bodies cleanBody shortBody.append.1
  | .object _ listed, clean, short => by
    rw [checkExpr] at clean
    rw [Bound.Expr.code] at short
    have operands := short.head.1
    rw [Instr.operand, Operand.longest] at operands
    rw [Bound.Expr.functions]
    exact propertiesFunctions listed (Diagnostics.cleanParts clean).1 operands
  | .member _ objects keys _, clean, short => by
    rw [checkExpr] at clean
    obtain ⟨cleanObject, cleanKey⟩ := Diagnostics.cleanParts clean
    rw [Bound.Expr.functions]
    cases keys with
    | known name =>
      rw [Bound.Expr.code] at short
      rw [Bound.Key.functions, List.append_nil]
      exact exprFunctions objects cleanObject short.append.1
    | computed keys =>
      rw [Bound.Expr.code] at short
      rw [checkKey] at cleanKey
      rw [Bound.Key.functions]
      exact List.forall_mem_append.mpr ⟨exprFunctions objects cleanObject short.append.1.append.1,
        exprFunctions keys cleanKey short.append.1.append.2⟩
  | .grouping _ inners, clean, short => by
    rw [checkExpr] at clean
    rw [Bound.Expr.code] at short
    rw [Bound.Expr.functions]
    exact exprFunctions inners clean short

theorem argsFunctions {types : List Ty} {t u : SymbolTable} {args : List Arg}
    {args' : List Bound.Arg} :
    ArgsBind types t args args' u → (checkArgValues args').hasErrors = false →
    operandsLongest (argOperands args') < 2 ^ 31 → ∀ g ∈ argFunctions args', g.Accepted
  | .nil, _, _ => by rw [argFunctions]; nofun
  | .cons name values others, clean, short => by
    obtain ⟨x, operands⟩ := argOperandsCons name _ _ _
    rw [operands] at short
    rw [checkArgValues] at clean
    obtain ⟨cleanValue, cleanRest⟩ := Diagnostics.cleanParts clean
    obtain ⟨shortFirst, shortRest⟩ := operandsShort short
    rw [argFunctions]
    exact List.forall_mem_append.mpr ⟨exprFunctions values cleanValue (operandCode shortFirst),
      argsFunctions others cleanRest shortRest⟩

theorem paramsFunctions {span : Span} {t u : SymbolTable} {params : List Param}
    {params' : List Bound.Param} :
    ParamsBind span t params params' u → (checkParamDefaults params').hasErrors = false →
    operandsLongest (paramOperands params') < 2 ^ 31 → ∀ g ∈ paramFunctions params', g.Accepted
  | .nil, _, _ => by rw [paramFunctions]; nofun
  | .required _ _ others, clean, short => by
    rw [checkParamDefaults] at clean
    rw [paramOperands, operandsLongest] at short
    rw [paramFunctions]
    exact paramsFunctions others clean (by omega)
  | .optional _ _ defaults others, clean, short => by
    rw [checkParamDefaults] at clean
    rw [paramOperands] at short
    obtain ⟨cleanDefault, cleanRest⟩ := Diagnostics.cleanParts clean
    obtain ⟨shortFirst, shortRest⟩ := operandsShort short
    rw [paramFunctions]
    exact List.forall_mem_append.mpr ⟨exprFunctions defaults cleanDefault (operandCode shortFirst),
      paramsFunctions others cleanRest shortRest⟩

theorem propertiesFunctions {expected : Option Ty} {shape last : Shape} {t u : SymbolTable}
    {properties : List Property} {properties' : List Bound.Property} :
    PropertiesBind expected shape t properties properties' last u →
    (checkPropertyValues properties').hasErrors = false →
    operandsLongest (propertyOperands properties') < 2 ^ 31 →
    ∀ g ∈ propertyFunctions properties', g.Accepted
  | .nil, _, _ => by rw [propertyFunctions]; nofun
  | .cons keys values _ others, clean, short => by
    rw [checkPropertyValues] at clean
    obtain ⟨clean, cleanRest⟩ := Diagnostics.cleanParts clean
    obtain ⟨cleanKey, cleanValue⟩ := Diagnostics.cleanParts clean
    rw [propertyFunctions]
    cases keys with
    | known name =>
      rw [propertyOperands] at short
      obtain ⟨shortFirst, shortRest⟩ := operandsShort short
      rw [Bound.Key.functions, List.nil_append]
      exact List.forall_mem_append.mpr ⟨exprFunctions values cleanValue (operandCode shortFirst),
        propertiesFunctions others cleanRest shortRest⟩
    | computed keys =>
      rw [propertyOperands] at short
      rw [checkKey] at cleanKey
      obtain ⟨shortFirst, shortRest⟩ := operandsShort short
      obtain ⟨shortKey, shortValue⟩ := operandCodes shortFirst
      rw [Bound.Key.functions]
      exact List.forall_mem_append.mpr ⟨exprFunctions keys cleanKey shortKey,
        List.forall_mem_append.mpr ⟨exprFunctions values cleanValue shortValue,
          propertiesFunctions others cleanRest shortRest⟩⟩

theorem stmtFunctionsAccepted {t u : SymbolTable} {s : Stmt} {s' : Bound.Stmt} :
    StmtBinds t s s' u → (checkStmt s').hasErrors = false → Short s'.code →
    ∀ g ∈ s'.functions, g.Accepted
  | .uninitialized .., _, _ | .typeAlias .., _, _ | .bare _, _, _ => by
    rw [Bound.Stmt.functions]; nofun
  | .initialized _ _ _ _ inits, clean, short => by
    rw [checkStmt] at clean
    rw [Bound.Stmt.code] at short
    rw [Bound.Stmt.functions]
    exact exprFunctions inits (Diagnostics.cleanParts clean).1 short.append.1
  | .functionDecl _ _ _ _ taken bodies, clean, short => by
    rw [checkStmt] at clean
    rw [Bound.Stmt.code] at short
    obtain ⟨clean, returns⟩ := Diagnostics.cleanParts clean
    obtain ⟨cleanParams, cleanBody⟩ := Diagnostics.cleanParts (Diagnostics.cleanParts clean).1
    obtain ⟨shortParams, shortBody⟩ := procShort short.append.1
    rw [Bound.Stmt.functions]
    refine List.forall_mem_cons.mpr ⟨?_, List.forall_mem_append.mpr ⟨?_, ?_⟩⟩
    · exact ⟨⟨_, _, _, _, _, _, taken, bodies⟩, cleanBody, returns, shortBody⟩
    · exact paramsFunctions taken cleanParams shortParams
    · exact blockFunctions bodies cleanBody shortBody.append.1
  | .branch _ conditions thens, clean, short => by
    rw [checkStmt] at clean
    rw [Bound.Stmt.code] at short
    obtain ⟨cleanCondition, cleanThen⟩ := Diagnostics.cleanParts clean
    rw [Bound.Stmt.functions]
    exact List.forall_mem_append.mpr ⟨exprFunctions conditions cleanCondition short.append.1,
      blockFunctions thens cleanThen short.append.2.head.2⟩
  | .choice _ conditions thens elses, clean, short => by
    rw [checkStmt] at clean
    rw [Bound.Stmt.code] at short
    obtain ⟨clean, cleanElse⟩ := Diagnostics.cleanParts clean
    obtain ⟨cleanCondition, cleanThen⟩ := Diagnostics.cleanParts clean
    obtain ⟨shortFirst, shortSecond⟩ := short.append
    rw [Bound.Stmt.functions]
    exact List.forall_mem_append.mpr ⟨exprFunctions conditions cleanCondition shortFirst.append.1,
      List.forall_mem_append.mpr ⟨blockFunctions thens cleanThen shortFirst.append.2.head.2,
        stmtFunctionsAccepted elses cleanElse shortSecond.head.2⟩⟩
  | .loop _ conditions bodies, clean, short => by
    rw [checkStmt] at clean
    rw [Bound.Stmt.code] at short
    obtain ⟨cleanCondition, cleanBody⟩ := Diagnostics.cleanParts clean
    rw [Bound.Stmt.functions]
    exact List.forall_mem_append.mpr
      ⟨exprFunctions conditions cleanCondition short.append.1.append.1,
        blockFunctions bodies cleanBody short.append.1.append.2.head.2⟩
  | .ret _ values, clean, short => by
    rw [checkStmt] at clean
    rw [Bound.Stmt.code] at short
    rw [Bound.Stmt.functions]
    exact exprFunctions values clean short.append.1
  | .block bodies, clean, short => by
    rw [checkStmt] at clean
    rw [Bound.Stmt.code] at short
    rw [Bound.Stmt.functions]
    exact blockFunctions bodies clean short
  | .expr _ values, clean, short => by
    rw [checkStmt] at clean
    rw [Bound.Stmt.code] at short
    rw [Bound.Stmt.functions]
    exact exprFunctions values clean short.append.1

theorem blockFunctions {t u : SymbolTable} {body : Block} {body' : Bound.Block} :
    BlockBinds t body body' u → (checkBlock body').hasErrors = false → Short body'.code →
    ∀ g ∈ body'.functions, g.Accepted
  | .mk _ bodies, clean, short => by
    rw [checkBlock] at clean
    rw [Bound.Block.code] at short
    rw [Bound.Block.functions]
    exact stmtsFunctions bodies clean short.append.1.head.2

theorem stmtsFunctions {t u : SymbolTable} {body : List Stmt} {body' : List Bound.Stmt} :
    StmtsBind t body body' u → (checkStmts body').hasErrors = false → Short (stmtsCode body') →
    ∀ g ∈ Bound.stmtFunctions body', g.Accepted
  | .nil, _, _ => by rw [Bound.stmtFunctions]; nofun
  | .cons first others, clean, short => by
    rw [checkStmts] at clean
    rw [stmtsCode] at short
    obtain ⟨cleanFirst, cleanRest⟩ := Diagnostics.cleanParts clean
    obtain ⟨shortFirst, shortRest⟩ := short.append
    rw [Bound.stmtFunctions]
    exact List.forall_mem_append.mpr ⟨stmtFunctionsAccepted first cleanFirst shortFirst,
      stmtsFunctions others cleanRest shortRest⟩

end

theorem programFunctions {t u : SymbolTable} {p : Program} {p' : Bound.Program}
    (binds : StmtsBind t p p' u) (clean : (checkStmts p').hasErrors = false)
    (short : Short (programCode p')) : ∀ g ∈ Bound.stmtFunctions p', g.Accepted := by
  induction p' using programCode.induct generalizing t p with
  | case1 => rw [Bound.stmtFunctions]; nofun
  | case2 m value =>
    cases binds with
    | cons first others =>
      cases first with
      | expr m values =>
        rw [checkStmts, checkStmt] at clean
        rw [programCode] at short
        rw [Bound.stmtFunctions, Bound.Stmt.functions, Bound.stmtFunctions, List.append_nil]
        exact exprFunctions values (Diagnostics.cleanParts clean).1 short.append.1
  | case3 s rest other ih =>
    cases binds with
    | cons first others =>
      rw [checkStmts] at clean
      obtain ⟨cleanFirst, cleanRest⟩ := Diagnostics.cleanParts clean
      rw [programCode] at short
      · obtain ⟨shortFirst, shortRest⟩ := short.append
        rw [Bound.stmtFunctions]
        exact List.forall_mem_append.mpr ⟨stmtFunctionsAccepted first cleanFirst shortFirst,
          ih others cleanRest shortRest⟩
      · exact other

end Quill
