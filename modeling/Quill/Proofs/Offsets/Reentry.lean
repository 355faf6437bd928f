import Mathlib
import Quill.Compile
import Quill.Proofs.Offsets.Beginnings
import Quill.Proofs.Offsets.EmptyBlocks

/-! A program in which a function calls itself after it took a value from below its frame. -/
namespace Quill.Reentry

def guard (m : Mark) : Stmt :=
  .ifElse m (.unary m .not (.ident m "a"))
    (.mk m [.expr m (.assign m "a" none (.literal m (.bool true))),
      .ret m (some (.call m (.ident m "f") []))]) none

def leave (m : Mark) (marks : List Mark) : Stmt :=
  .ifElse m (.literal m (.bool true)) (.mk m ([.ret m none, emptyBlock m] ++ emptyBlocks marks)) none

def branch (m : Mark) (marks more : List Mark) : Stmt :=
  .ifElse m (.ident m "a")
    (.mk m ([.expr m (.literal m (.int 1)), guard m, leave m marks] ++ emptyBlocks more)) none

def guardWords : List String :=
  ["if", "!", "a", "\x7b", "a", "=", "true", ";", "return", "f", "(", ")", ";", "\x7d"]

def leaveWords (n : Nat) : List String :=
  ["if", "true", "\x7b", "return", ";", "\x7b", "\x7d"] ++ (blockWords n ++ ["\x7d"])

def branchWords (n more : Nat) : List String :=
  ["if", "a", "\x7b", "1", ";"] ++ (guardWords ++ (leaveWords n ++ (blockWords more ++ ["\x7d"])))

def treeWords (n more : Nat) : List String :=
  ["let", "mut", "a", "=", "false", ";", "fn", "f", "(", ")", "\x7b"] ++
    (branchWords n more ++ ["\x7d", "7", "==", "f", "(", ")", ";"])

-- Two rows of empty blocks make the bodies of a branch and of the one around it longer than an offset
-- counts: `let mut a = false; fn f() { if a { 1; if !a { a = true; return f(); }`
-- `if true { return; … } … } } 7 == f();`.
def source : String := String.ofList (wordsText (treeWords (2 ^ 30 - 3) (2 ^ 30 - 9)))

def declared : BindState := ⟨(SymbolTable.initial.define "a" (.primitive .bool) true false).2, []⟩

def inBody : BindState :=
  ⟨(declared.symbols.define "f" (.function [] .any) false false).2.push.push, []⟩

def guardCode : Code :=
  [.mk .push (.str "a") none, .mk .load .null none, .mk .not .null none, .mk .jz (.int 10) none,
    .mk .beginScope .null none, .mk .push (.bool true) none, .mk .push (.str "a") none,
    .mk .store .null none, .mk .pop .null none, .mk .push (.str "f") none, .mk .load .null none,
    .mk .call (.list []) none, .mk .ret .null none, .mk .endScope .null none]

def leaveStart : Code :=
  [.mk .push (.bool true) none, .mk .jz (.int (Int32.ofInt (2 ^ 31))) none,
    .mk .beginScope .null none, .mk .pushNone .null none, .mk .ret .null none,
    .mk .beginScope .null none]

def oneCode : Code := [.mk .push (.long 1) none, .mk .pop .null none]

def branchStart : Code :=
  [.mk .push (.str "a") none, .mk .load .null none, .mk .jz (.int 2) none,
    .mk .beginScope .null none] ++ (oneCode ++ (guardCode ++ leaveStart))

def bodyStart : Code := .mk .beginScope .null none :: branchStart

def start : Code :=
  [.mk .push (.bool false) none, .mk .push (.str "a") none, .mk .define .null none] ++
    parameterless bodyStart none ::
      [.mk .push (.str "f") none, .mk .define .null none, .mk .push (.long 7) none,
        .mk .push (.str "f") none, .mk .load .null none, .mk .call (.list []) none,
        .mk .eq .null none, .mk .exit .null none]

def cut : Place := (Place.ofUnit 1).inner 3 0

def behind : BindState :=
  ⟨(inBody.symbols.pop.pop.define "f" (.function [] (.unionOf [.any, .none])) false false).2, []⟩

end Quill.Reentry
