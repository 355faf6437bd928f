import Quill.Proofs.Evaluation.Direct
import Quill.Proofs.Parsing.StatementsReadBack
import Quill.Proofs.Soundness.Fragment
import Quill.Proofs.Sources.Shapes

/-! Rows of empty blocks. They do nothing in any pass but that each has two instructions, so they make
code as long as one likes. -/
namespace Quill

def wordsText (words : List String) : List Char := words.flatMap fun word => word.toList ++ [' ']

def blankGap (_ : Token) (_ : Option Token) : List Char := [' ']

theorem blankGapBlank (t : Token) (u : Option Token) : ∀ c ∈ blankGap t u, Lexer.isBlank c :=
  List.forall_mem_singleton.mpr rfl

theorem blankGapSpaced : (tokens : List Token) → tokens.IsChain (Lexer.Spaced blankGap)
  | [] => .nil
  | [t] => .singleton t
  | _ :: u :: rest => .cons_cons (.inl (List.cons_ne_nil _ _)) (blankGapSpaced (u :: rest))

def Spelled : List Token → List String → Prop :=
  List.Forall₂ fun t word => Lexer.Lexeme t word.toList

theorem Spelled.append {front rest : List Token} {words more : List String}
    (first : Spelled front words) (others : Spelled rest more) :
    Spelled (front ++ rest) (words ++ more) := List.rel_append first others

theorem Spelled.written {tokens : List Token} {words : List String}
    (spelled : Spelled tokens words) : Lexer.Written blankGap tokens (wordsText words) := by
  induction spelled with
  | nil => exact .nil
  | cons lexeme _ ih =>
    have written := Lexer.Written.cons lexeme ih
    rw [wordsText, List.flatMap_cons, List.append_assoc]
    exact written

theorem Spelled.readBack {p : Program} {words : List String} (spelled : Spelled (stmtsTokens p) words)
    (fits : stmtsFit p) : ∃ p', parseSource (String.ofList (wordsText words)) = .ok p' ∧
      StmtsSame p p' :=
  programReadBack fits blankGapBlank spelled.written (blankGapSpaced _)

theorem compiledClean {source : String} {p : Program} (parsed : parseSource source = .ok p)
    (clean : (bind p).2 ++ Bound.check (bind p).1 = ([] : Diagnostics))
    (accepted : (Bound.generate (bind p).1).2 = []) :
    compile source false = .ok ⟨p, (Bound.generate (bind p).1).1, []⟩ := by
  have compiled : compile source false = compileProgram p false := by
    unfold compile
    rw [parsed]
    rfl
  rw [compiled]
  unfold compileProgram
  simp only
  rw [clean, accepted]
  rfl

def emptyBlock (m : Mark) : Stmt := .block (.mk m [])

def emptyBlocks (marks : List Mark) : List Stmt := marks.map emptyBlock

def blockWords (n : Nat) : List String := (List.replicate n ["\x7b", "\x7d"]).flatten

theorem emptyBlocksSpelled (marks : List Mark) :
    Spelled (stmtsTokens (emptyBlocks marks)) (blockWords marks.length) := by
  induction marks with
  | nil => exact .nil
  | cons _ _ ih => exact .cons (.symbol .lBrace) (.cons (.symbol .rBrace) ih)

theorem emptyBlocksFit (marks : List Mark) : stmtsFit (emptyBlocks marks) := by
  induction marks with
  | nil => trivial
  | cons _ _ ih => exact ⟨trivial, ih⟩

theorem emptyBlocksSame {marks : List Mark} {body : List Stmt}
    (same : StmtsSame (emptyBlocks marks) body) :
    ∃ marks', body = emptyBlocks marks' ∧ marks'.length = marks.length := by
  induction marks generalizing body with
  | nil =>
    cases same
    exact ⟨[], rfl, rfl⟩
  | cons m marks ih =>
    cases same with | cons head tail =>
    cases head with | block bodies =>
    cases bodies with | mk _ m' none =>
    cases none
    obtain ⟨marks', rfl, length⟩ := ih tail
    exact ⟨m' :: marks', rfl, congrArg (· + 1) length⟩

theorem emptyBlocksFree (marks : List Mark) : stmtsFunctionFree (emptyBlocks marks) := by
  induction marks with
  | nil => rfl
  | cons _ _ ih => exact ih

theorem emptyBlocksStructured (marks : List Mark) : stmtsStructured (emptyBlocks marks) := by
  induction marks with
  | nil => rfl
  | cons _ _ ih => exact ih

namespace Bound

def emptyBlocks (marks : List Mark) : List Stmt :=
  marks.map fun m => .block (.mk m (returnedType []) [])

/-- A list that is put together from what each statement gives. -/
structure Gathers {α : Type} (whole : List Stmt → List α) (one : Stmt → List α) : Prop where
  nil : whole [] = []
  cons (s : Stmt) (rest : List Stmt) : whole (s :: rest) = one s ++ whole rest

namespace Gathers

variable {α : Type} {whole : List Stmt → List α} {one : Stmt → List α}

theorem append (gathers : Gathers whole one) (front rest : List Stmt) :
    whole (front ++ rest) = whole front ++ whole rest := by
  induction front with
  | nil => rw [gathers.nil, List.nil_append, List.nil_append]
  | cons s front ih => rw [List.cons_append, gathers.cons, ih, gathers.cons, List.append_assoc]

theorem behind (gathers : Gathers whole one)
    (none : ∀ m, one (.block (.mk m (returnedType []) [])) = []) (front : List Stmt)
    (marks : List Mark) : whole (front ++ emptyBlocks marks) = whole front := by
  have nothing : whole (emptyBlocks marks) = [] := by
    induction marks with
    | nil => exact gathers.nil
    | cons m marks ih =>
      change whole (_ :: emptyBlocks marks) = []
      rw [gathers.cons, none, ih, List.nil_append]
  rw [gathers.append, nothing, List.append_nil]

end Gathers

theorem emptyBlocksLength (marks : List Mark) :
    (stmtsCode (emptyBlocks marks)).length = 2 * marks.length := by
  induction marks with
  | nil => rfl
  | cons m marks ih =>
    change (stmtsCode (emptyBlocks marks)).length + 2 = 2 * (marks.length + 1)
    rw [ih, Nat.mul_add]

variable (front : List Stmt) (marks : List Mark)

theorem checkBehind : checkStmts (front ++ emptyBlocks marks) = checkStmts front :=
  Gathers.behind ⟨rfl, fun _ _ => rfl⟩ (fun _ => rfl) front marks

theorem rejectionsBehind : stmtRejections (front ++ emptyBlocks marks) = stmtRejections front :=
  Gathers.behind ⟨rfl, fun _ _ => rfl⟩ (fun _ => rfl) front marks

theorem returnsBehind : returnsOf (front ++ emptyBlocks marks) = returnsOf front :=
  Gathers.behind ⟨rfl, fun _ _ => rfl⟩ (fun _ => rfl) front marks

theorem blockBehind (m : Mark) (type : Ty) :
    ∃ rest, (Block.mk m type (front ++ emptyBlocks marks)).code =
        instr m .beginScope :: (stmtsCode front ++ rest) ∧
      rest.length = 2 * marks.length + 1 := by
  refine ⟨stmtsCode (emptyBlocks marks) ++ [instr m .endScope], ?_, ?_⟩
  · have appended : stmtsCode (front ++ emptyBlocks marks) =
        stmtsCode front ++ stmtsCode (emptyBlocks marks) :=
      Gathers.append ⟨rfl, fun _ _ => rfl⟩ front _
    rw [Block.code, appended, List.cons_append, List.append_assoc]
  · rw [List.length_append, emptyBlocksLength]
    rfl

end Bound

theorem bindBehind (front : List Stmt) (marks : List Mark) (s : BindState) :
    bindStmts (front ++ emptyBlocks marks) s =
      ((bindStmts front s).1 ++ Bound.emptyBlocks marks, (bindStmts front s).2) := by
  induction front generalizing s with
  | nil =>
    induction marks with
    | nil => rfl
    | cons m marks ih =>
      change (let behind := bindStmts (emptyBlocks marks) s
        (Bound.Stmt.block (.mk m (Bound.returnedType []) []) :: behind.1, behind.2)) = _
      rw [← List.nil_append (emptyBlocks marks), ih]
      rfl
  | cons first front ih =>
    change (let here := bindStmt first s
      let behind := bindStmts (front ++ emptyBlocks marks) here.2
      (here.1 :: behind.1, behind.2)) = _
    simp only [ih]
    rfl

theorem bindBlockBehind (m : Mark) (front : List Stmt) (marks : List Mark) (s : BindState) :
    bindBlock (.mk m (front ++ emptyBlocks marks)) s =
      let inner := bindStmts front ⟨s.symbols.push, s.diagnostics⟩
      (.mk m (Bound.returnedType inner.1) (inner.1 ++ Bound.emptyBlocks marks),
        ⟨inner.2.symbols.pop, inner.2.diagnostics⟩) := by
  have body := bindBehind front marks ⟨s.symbols.push, s.diagnostics⟩
  change (let inner := bindStmts (front ++ emptyBlocks marks) ⟨s.symbols.push, s.diagnostics⟩
    (Bound.Block.mk m (Bound.returnedType inner.1) inner.1,
      BindState.mk inner.2.symbols.pop inner.2.diagnostics)) = _
  simp only [body, Bound.returnedType, Bound.returnsBehind]

end Quill
