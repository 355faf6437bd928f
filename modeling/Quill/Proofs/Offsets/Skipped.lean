import Quill.Compile
import Quill.Proofs.Offsets.Beginnings
import Quill.Proofs.Offsets.EmptyBlocks

/-! Programs of more instructions than a jump offset counts. The offset is cut to 32 bits, and the
jump leads somewhere else. -/
namespace Quill

-- `if false { let y = 1; y; … }`, with empty blocks up to the end of the branch.
def skippedSource (n : Nat) : String :=
  String.ofList (wordsText
    (["if", "false", "\x7b", "let", "y", "=", "1", ";", "y", ";"] ++ (blockWords n ++ ["\x7d"])))

inductive Skipped (marks : List Mark) : Program → Prop where
  | mk (branch condition body declared one use name : Mark) :
      Skipped marks
        [.ifElse branch (.literal condition (.bool false))
          (.mk body ([.letDecl declared "y" false none (some (.literal one (.int 1))),
            .expr use (.ident name "y")] ++ emptyBlocks marks)) none]

def skippedTree (m : Mark) (marks : List Mark) : Program :=
  [.ifElse m (.literal m (.bool false))
    (.mk m ([.letDecl m "y" false none (some (.literal m (.int 1))), .expr m (.ident m "y")] ++
      emptyBlocks marks)) none]

theorem skippedSpelled (m : Mark) (marks : List Mark) :
    Spelled (stmtsTokens (skippedTree m marks))
      (["if", "false", "\x7b", "let", "y", "=", "1", ";", "y", ";"] ++
        (blockWords marks.length ++ ["\x7d"])) := by
  have y : Lexer.Lexeme (.ident "y") "y".toList := .ident (by decide) (by decide) (by decide)
  have one : Lexer.Lexeme (.integer 1) "1".toList := .integer (by decide)
  have tokens : stmtsTokens (skippedTree m marks) =
      [.keyword .kwIf, .bool false, .symbol .lBrace, .keyword .kwLet, .ident "y", .symbol .assign,
        .integer 1, .symbol .semicolon, .ident "y", .symbol .semicolon] ++
        (stmtsTokens (emptyBlocks marks) ++ [.symbol .rBrace]) := List.append_nil _
  rw [tokens]
  refine .cons (.keyword .kwIf) (.cons (.bool false) (.cons (.symbol .lBrace) ?_))
  refine .cons (.keyword .kwLet) (.cons y (.cons (.symbol .assign) (.cons one ?_)))
  refine .cons (.symbol .semicolon) (.cons y (.cons (.symbol .semicolon) ?_))
  exact (emptyBlocksSpelled marks).append (.cons (.symbol .rBrace) .nil)

theorem skippedParses (n : Nat) :
    ∃ marks p, marks.length = n ∧ parseSource (skippedSource n) = .ok p ∧ Skipped marks p := by
  let m : Mark := ⟨0, .start⟩
  have spelled := skippedSpelled m (List.replicate n m)
  rw [List.length_replicate] at spelled
  obtain ⟨p', parsed, same⟩ :=
    spelled.readBack ⟨⟨trivial, trivial, trivial, emptyBlocksFit _⟩, trivial⟩
  change StmtsSame [.ifElse _ _ (.mk _ (.letDecl .. :: .expr .. :: emptyBlocks _)) _] p' at same
  cases same with | cons head tail =>
  cases tail
  cases head with | ifElse _ branch conditions branches =>
  cases conditions with | literal _ condition =>
  cases branches with | mk _ body bodies =>
  cases bodies with | cons first bodies =>
  cases first with | letDecl _ declared _ _ inits =>
  cases inits with | literal _ one =>
  cases bodies with | cons second bodies =>
  cases second with | expr _ use values =>
  cases values with | ident _ name =>
  obtain ⟨marks, rfl, length⟩ := emptyBlocksSame bodies
  rw [List.length_replicate] at length
  exact ⟨marks, _, length, parsed, .mk branch condition body declared one use name⟩

theorem skippedFree {marks : List Mark} {p : Program} (skipped : Skipped marks p) :
    stmtsFunctionFree p := by
  cases skipped with
  | mk => exact Bool.and_eq_true_iff.mpr ⟨emptyBlocksFree marks, rfl⟩

theorem skippedStructured {marks : List Mark} {p : Program} (skipped : Skipped marks p) :
    stmtsStructured p := by
  cases skipped with
  | mk => exact Bool.and_eq_true_iff.mpr ⟨emptyBlocksStructured marks, rfl⟩

theorem skippedEval {marks : List Mark} {p : Program} (skipped : Skipped marks p) (rounds : Nat)
    (chain : Chain) : Program.eval rounds p chain = .ok none chain := by
  cases skipped with
  | mk => rfl

theorem bindBranch (branch condition : Mark) (value : Literal) (b : Block) :
    bind [.ifElse branch (.literal condition value) b none] =
      ([.ifElse branch (.literal ⟨condition, value.type⟩ value) (bindBlock b ⟨.initial, []⟩).1 none],
        (bindBlock b ⟨.initial, []⟩).2.diagnostics) := rfl

theorem skippedBinds {marks : List Mark} {p : Program} (skipped : Skipped marks p) :
    ∃ branch condition body type front,
      bind p = ([.ifElse branch (.literal condition (.bool false))
        (.mk body type (front ++ Bound.emptyBlocks marks)) none], []) ∧
      Bound.checkStmts front = [] ∧ Bound.stmtRejections front = [] ∧
      SameUnsourced (Bound.stmtsCode front) [.mk .push (.long 1) none,
        .mk .push (.str "y") none, .mk .define .null none, .mk .push (.str "y") none,
        .mk .load .null none, .mk .pop .null none] := by
  cases skipped with
  | mk branch condition body declared one use name =>
    rw [bindBranch, bindBlockBehind]
    refine ⟨branch, _, body, _, _, rfl, ?_, rfl, rfl⟩
    with_unfolding_all rfl

theorem skippedAccepted {marks : List Mark} {p : Program} (skipped : Skipped marks p) :
    (bind p).2 ++ Bound.check (bind p).1 = ([] : Diagnostics) ∧
      (Bound.generate (bind p).1).2 = [] := by
  obtain ⟨branch, condition, body, type, front, bound, checked, accepted, -⟩ := skippedBinds skipped
  rw [bound]
  constructor
  · change Bound.checkStmts (front ++ Bound.emptyBlocks marks) ++ [] = []
    rw [Bound.checkBehind, checked]
    rfl
  · change Bound.stmtRejections (front ++ Bound.emptyBlocks marks) ++ [] = []
    rw [Bound.rejectionsBehind, accepted]
    rfl

def skippedStart : Code :=
  [.mk .push (.bool false) none, .mk .jz (.int 4) none, .mk .beginScope .null none,
    .mk .push (.long 1) none, .mk .push (.str "y") none, .mk .define .null none,
    .mk .push (.str "y") none, .mk .load .null none, .mk .pop .null none]

theorem skippedCode {marks : List Mark} {p : Program} (skipped : Skipped marks p)
    (many : marks.length = 2 ^ 31 - 2) :
    ∃ rest, SameUnsourced (Bound.generate (bind p).1).1 (skippedStart ++ rest) ∧
      rest.length = 2 ^ 32 - 2 := by
  obtain ⟨branch, condition, body, type, front, bound, -, -, code⟩ := skippedBinds skipped
  obtain ⟨rest, block, longer⟩ := Bound.blockBehind front marks body type
  have length : (Bound.Block.mk body type (front ++ Bound.emptyBlocks marks)).code.length =
      2 ^ 32 + 4 := by
    rw [block, List.length_cons, List.length_append, longer, code.length, many]
    rfl
  have leads : SameUnsourced [Bound.push condition.mark (.bool false),
      Bound.jump branch .jz (2 ^ 32 + 4 : Nat), Bound.instr body .beginScope]
      [.mk .push (.bool false) none, .mk .jz (.int 4) none, .mk .beginScope .null none] := rfl
  refine ⟨rest ++ [.mk .exit .null none], ?_, ?_⟩
  · rw [bound]
    change SameUnsourced ([Bound.push condition.mark (.bool false), Bound.jump branch .jz
      (Bound.Block.mk body type (front ++ Bound.emptyBlocks marks)).code.length] ++
      (Bound.Block.mk body type (front ++ Bound.emptyBlocks marks)).code ++ [.mk .exit .null none]) _
    rw [length, block]
    change SameUnsourced (_ :: _ :: _ :: ((Bound.stmtsCode front ++ rest) ++ [_])) _
    rw [List.append_assoc]
    exact leads.append (code.append rfl)
  · rw [List.length_append, longer, many]
    rfl

-- Steps are not counted, and the stack has a cell for each instruction of the code above.
def vast (spans : List Span) : Setup := ⟨⟨1000, none, 2 ^ 33⟩, spans, none, true⟩

theorem skippedRoom {marks : List Mark} {p : Program} (skipped : Skipped marks p)
    (many : marks.length = 2 ^ 31 - 2) (spans : List Span) :
    (Bound.generate (bind p).1).1.length ≤ (vast spans).limits.maxStackSize := by
  obtain ⟨rest, code, length⟩ := skippedCode skipped many
  have room : skippedStart.length + (2 ^ 32 - 2) ≤ 2 ^ 33 := by decide
  rw [code.length, List.length_append, length]
  exact room

/-- The jump over the branch leads into it, behind the declaration. -/
theorem skippedFails {marks : List Mark} {p : Program} (skipped : Skipped marks p)
    (many : marks.length = 2 ^ 31 - 2) (spans : List Span) :
    ∃ last e, (Machine.new.load (Bound.generate (bind p).1).1).run (vast spans) 10 = .failed last e ∧
      e.fault = .undefinedVariable "y" := by
  obtain ⟨rest, code, -⟩ := skippedCode skipped many
  have begins : Begins (Bound.generate (bind p).1).1 skippedStart := ⟨⟨rest, code⟩, rfl⟩
  have small : (Machine.new.load skippedStart).staysInside (vast []) (.ofUnit 1) 10 ∧
      ((Machine.new.load skippedStart).run (vast []) 10).outcome? =
        some (some (.undefinedVariable "y")) := by decide +kernel
  exact Transition.failedFor ((begunOutcome (vast spans) [] (.begins begins) small.1).trans small.2)

end Quill
