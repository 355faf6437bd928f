import Quill.Code.Codec
import Quill.Compile
import Quill.Machine.Step

/-! Sessions: runs of several programs on one machine, which keeps its global variables. Loading
prepares a run and running is up to the caller, since a program need not end. -/
namespace Quill

structure Session where
  setup : Setup
  machine : Machine

def Machine.new : Machine :=
  let scopes := Intrinsic.all.foldl (fun h i => h.define ScopeHeap.global i.name (.intrinsic i))
    ScopeHeap.new
  ⟨scopes, 0, "", [], 1, .start ⟨[], .ofUnit 0⟩ ScopeHeap.global 0, []⟩

instance : Inhabited Machine := ⟨.new⟩

instance : Inhabited Transition := ⟨.running .new⟩

def Machine.reset (m : Machine) : Machine :=
  { m with
    steps := 0, output := "", diagnostics := []
    current := .start ⟨[], .ofUnit 0⟩ ScopeHeap.global 0
    outer := [] }

/-- Loads code as a unit. Functions of one unit that have the same place there share their code, also
those of different runs: code that is loaded again is the same unit again. -/
def Machine.loadAs (m : Machine) (unit : Nat) (code : Code) : Machine :=
  { m.reset with current := .start ⟨code, .ofUnit unit⟩ ScopeHeap.global 0 }

/-- Loads code for the first time, as a unit of its own. -/
def Machine.load (m : Machine) (code : Code) : Machine :=
  { m with nextId := m.nextId + 1 }.loadAs m.nextId code

def Machine.result? (m : Machine) : Option Value := m.current.top?

namespace Session

def new (limits : Limits) (broken : Option String) : Session :=
  ⟨⟨limits, [], broken, true⟩, .new⟩

def withSpans (s : Session) (spans : List Span) : Session :=
  { s with setup := { s.setup with spans := spans } }

def load (s : Session) (code : Code) : Session := { s with machine := s.machine.load code }

def loadCompiled (s : Session) (c : Compiled) : Session := (s.withSpans c.spans).load c.code

def reset (s : Session) : Session := { s with machine := s.machine.reset }

def get? (s : Session) (name : String) : Option Value :=
  s.machine.scopes.get? ScopeHeap.global name

def define (s : Session) (name : String) (value : Value) : Session :=
  { s with machine :=
    { s.machine with scopes := s.machine.scopes.define ScopeHeap.global name value } }

end Session

end Quill
