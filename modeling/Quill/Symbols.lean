import Quill.Ty

/-! Static scopes. Variables and types live in separate namespaces; the innermost scope and in it
the latest definition of a name wins. -/
namespace Quill

structure VarSymbol where
  id : Nat
  name : String
  type : Ty
  mutable : Bool
  isIntrinsic : Bool

/-- The open scopes, innermost first, with the global one apart: it is never closed. Each has its
latest definition first. -/
structure Scopes (α : Type) where
  inner : List (List α)
  global : List α

namespace Scopes

variable {α : Type}

def new : Scopes α := ⟨[], []⟩

def all (s : Scopes α) : List (List α) := s.inner ++ [s.global]

def push (s : Scopes α) : Scopes α := { s with inner := [] :: s.inner }

def pop (s : Scopes α) : Scopes α := { s with inner := s.inner.drop 1 }

def add (s : Scopes α) (x : α) : Scopes α :=
  match s.inner with
  | [] => { s with global := x :: s.global }
  | here :: outer => { s with inner := (x :: here) :: outer }

def find? (s : Scopes α) (p : α → Bool) : Option α := s.all.flatten.find? p

theorem heightAdd (s : Scopes α) (x : α) : (s.add x).inner.length = s.inner.length := by
  obtain ⟨_ | ⟨here, outer⟩, global⟩ := s <;> rfl

end Scopes

structure SymbolTable where
  -- All symbols that were ever defined. Their places here are their ids.
  symbols : Array VarSymbol
  varScopes : Scopes VarSymbol
  typeScopes : Scopes (String × Ty)
  parallel : typeScopes.inner.length = varScopes.inner.length

namespace SymbolTable

def new : SymbolTable := ⟨#[], .new, .new, rfl⟩

def depth (t : SymbolTable) : Nat := t.varScopes.all.length

def push (t : SymbolTable) : SymbolTable where
  symbols := t.symbols
  varScopes := t.varScopes.push
  typeScopes := t.typeScopes.push
  parallel := congrArg (· + 1) t.parallel

def pop (t : SymbolTable) : SymbolTable where
  symbols := t.symbols
  varScopes := t.varScopes.pop
  typeScopes := t.typeScopes.pop
  parallel := by rw [Scopes.pop, Scopes.pop, List.length_drop, List.length_drop, t.parallel]

-- Ids are counted without a bound. Those of up to 2 ^ 32 symbols fit in 32 bits.
def define (t : SymbolTable) (name : String) (type : Ty) (mutable isIntrinsic : Bool) :
    VarSymbol × SymbolTable :=
  let symbol := ⟨t.symbols.size, name, type, mutable, isIntrinsic⟩
  (symbol, {
    symbols := t.symbols.push symbol
    varScopes := t.varScopes.add symbol
    typeScopes := t.typeScopes
    parallel := t.parallel.trans (t.varScopes.heightAdd symbol).symm })

def defineType (t : SymbolTable) (name : String) (type : Ty) : SymbolTable where
  symbols := t.symbols
  varScopes := t.varScopes
  typeScopes := t.typeScopes.add (name, type)
  parallel := (t.typeScopes.heightAdd (name, type)).trans t.parallel

def get? (t : SymbolTable) (id : Nat) : Option VarSymbol := t.symbols[id]?

def lookup (t : SymbolTable) (name : String) : Option VarSymbol :=
  t.varScopes.find? (·.name = name)

def lookupType (t : SymbolTable) (name : String) : Option Ty :=
  (t.typeScopes.find? (·.1 = name)).map (·.2)

end SymbolTable

end Quill
