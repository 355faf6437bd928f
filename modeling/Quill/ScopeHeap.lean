import Quill.Text.Write
import Quill.Value

/-! Scopes at run time. A scope is a frame of variables in a growing heap, known by its number, and
is enclosed by an older one; closures keep scopes alive by their numbers. -/
namespace Quill

structure ScopeFrame where
  vars : List (String × Value)
  enclosing : Option Nat

namespace ScopeFrame

def get? (f : ScopeFrame) (name : String) : Option Value :=
  (f.vars.find? (·.1 = name)).map (·.2)

def declares (f : ScopeFrame) (name : String) : Bool := f.vars.any (·.1 = name)

def setIn (name : String) (value : Value) : List (String × Value) → List (String × Value)
  | [] => [(name, value)]
  | v :: rest => if v.1 = name then (name, value) :: rest else v :: setIn name value rest

def set (f : ScopeFrame) (name : String) (value : Value) : ScopeFrame :=
  { f with vars := setIn name value f.vars }

def text (f : ScopeFrame) : String :=
  let names := (f.vars.map (·.1)).mergeSort fun a b => decide (a ≤ b)
  "Scope \x7b vars: [" ++ String.intercalate ", " (names.map Text.quotedString) ++
    "], has_enclosing: " ++ (if f.enclosing.isSome then "true" else "false") ++ " \x7d"

end ScopeFrame

structure ScopeHeap where
  frames : Array ScopeFrame

namespace ScopeHeap

def global : Nat := 0

def new : ScopeHeap := ⟨#[⟨[], none⟩]⟩

def add (h : ScopeHeap) (enclosing : Option Nat) : Nat × ScopeHeap :=
  (h.frames.size, ⟨h.frames.push ⟨[], enclosing⟩⟩)

def child (h : ScopeHeap) (scope : Nat) : Nat × ScopeHeap := h.add (some scope)

def enclosing? (h : ScopeHeap) (scope : Nat) : Option Nat :=
  h.frames[scope]?.bind (·.enclosing)

def declaring? (h : ScopeHeap) (name : String) (scope : Nat) : Option Nat :=
  match h.frames[scope]? with
  | none => none
  | some f =>
    if f.declares name then some scope
    else
      match f.enclosing with
      | none => none
      | some outer => if outer < scope then h.declaring? name outer else none
termination_by scope

def get? (h : ScopeHeap) (scope : Nat) (name : String) : Option Value := do
  let f ← h.frames[← h.declaring? name scope]?
  f.get? name

def define (h : ScopeHeap) (scope : Nat) (name : String) (value : Value) : ScopeHeap :=
  ⟨h.frames.modify scope fun f => f.set name value⟩

def assign (h : ScopeHeap) (scope : Nat) (name : String) (value : Value) : ScopeHeap :=
  h.define ((h.declaring? name scope).getD scope) name value

def text (h : ScopeHeap) (scope : Nat) : String :=
  match h.frames[scope]? with
  | some f => f.text
  | none => ""

end ScopeHeap

end Quill
