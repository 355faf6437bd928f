import Quill.Proofs.Scoping.Calls
import Quill.Proofs.Typing.Steps

/-! Steps of machines whose variables are declared lead to such machines. -/
namespace Quill

namespace Machine

variable {m : Machine} {i : Instr} {names : List (List String)}

theorem Ready.mismatched {setup : Setup} {stack : List Cell} {text : String} {node : Option Nat} :
    ((m.withStack stack).fail setup (.typeMismatch text) node).Scoped :=
  fails setup node id

theorem Ready.reads (ready : m.Ready names) (setup : Setup) : (m.execGetMember setup).Scoped := by
  have cells := ready.cells
  unfold execGetMember
  split
  · rename_i key object rest stack
    rw [stack] at cells
    obtain ⟨-, cells⟩ := List.forall_mem_cons.mp cells
    obtain ⟨first, cells⟩ := List.forall_mem_cons.mp cells
    split
    · rename_i v given
      exact ready.pushes (fun c inside => first c (memberClosures given inside)) cells
    · rename_i fault refused
      exact fails setup none (memberFails refused).defined
  · exact fails setup none id

theorem Ready.computes (ready : m.Ready names) (setup : Setup) (op : Opcode) :
    (m.execBinary setup op).Scoped := by
  have cells := ready.cells
  unfold execBinary
  split
  · rename_i right left rest stack
    rw [stack] at cells
    have cells := (List.forall_mem_cons.mp (List.forall_mem_cons.mp cells).2).2
    split
    · rename_i v given
      exact ready.pushes (plainScoped (Value.binaryPlain given)) cells
    · exact fails setup right.source id
    · exact mismatched
  · exact fails setup none id

theorem Ready.applies (ready : m.Ready names) (setup : Setup) (op : Opcode) :
    (m.execUnary setup op).Scoped := by
  have cells := ready.cells
  unfold execUnary
  split
  · rename_i operand rest stack
    rw [stack] at cells
    split
    · rename_i v given
      exact ready.pushes (plainScoped (Value.unaryPlain given)) (List.forall_mem_cons.mp cells).2
    · exact mismatched
  · exact fails setup none id

theorem Ready.makes (ready : m.Ready names) (setup : Setup) (op : i.opcode = .proc)
    (holds : scenes.Holds i ⟨names, []⟩ ⟨names, []⟩) : (m.execProc setup i.operand).Scoped := by
  unfold execProc
  split
  · rename_i c made
    have value : (Value.function c).Scoped m.scopes := by
      unfold closureOf at made
      split at made
      · rename_i params body operand
        obtain ⟨runs, scope⟩ := closureRuns (l := m.current) made (procHolds holds op operand)
        rw [plainContext] at runs
        intro d inside
        rw [Value.closures, List.mem_singleton] at inside
        exact ⟨names, by rw [inside, scope]; exact ready.goes.1, inside ▸ runs⟩
      · cases made
    have counted : Machine.Ready { m with nextId := m.nextId + 1 } names :=
      ⟨⟨ready.heap, ready.outer, ready.frames⟩, ready.goes, ready.cells⟩
    exact counted.pushes value ready.cells
  · exact ready.skips setup _ _

theorem Sound.returns (sound : m.Sound) (cells : CellsScoped m.scopes m.current.stack) {f : Frame}
    {frames : List Frame} (calls : m.current.frames = f :: frames) : m.returnFrom.Scoped := by
  have waiting := sound.frames
  rw [calls] at waiting
  obtain ⟨⟨names, goes⟩, others⟩ := List.forall_mem_cons.mp waiting
  rw [returnCalled calls]
  refine .running ⟨⟨sound.heap, sound.outer, others⟩, _, goes, .cells ?_⟩
  refine List.forall_mem_cons.mpr ⟨?_, fun x inside => ?_⟩
  · cases stack : m.current.stack with
    | nil => exact plainScoped trivial
    | cons x rest => exact cells x (by rw [stack]; exact List.mem_cons_self)
  · exact cells x (List.mem_of_mem_tail (List.mem_of_mem_drop inside))

theorem Ready.returns (ready : m.Ready names) : m.returnFrom.Scoped := by
  cases calls : m.current.frames with
  | nil =>
    rw [returnFree calls]
    exact ready.advances ready.cells
  | cons f frames => exact ready.toSound.returns ready.cells calls

theorem Sound.ends (sound : m.Sound) (setup : Setup)
    (cells : CellsScoped m.scopes m.current.stack) : (m.endLevel setup).Scoped := by
  have outer := sound.outer
  unfold endLevel
  cases waiting : m.outer with
  | nil => exact .ended _
  | cons w outer' =>
    rw [waiting] at outer
    obtain ⟨⟨names, level, pending⟩, others⟩ := List.forall_mem_cons.mp outer
    have ready : Machine.Ready { m with current := peakBelow w.level m.current, outer := outer' }
        names := ⟨⟨sound.heap, others, level.frames⟩, level.goes, level.cells⟩
    refine ready.resumes setup ?_ pending
    unfold Level.top?
    cases stack : m.current.stack with
    | nil => exact plainScoped trivial
    | cons x rest => exact cells x (by rw [stack]; exact List.mem_cons_self)

theorem Ready.plain (ready : m.Ready names) (setup : Setup) (op : i.opcode.isPlain)
    (holds : scenes.Holds i ⟨names, []⟩ ⟨names, []⟩) : (m.exec setup i).Scoped := by
  by_cases binary : i.opcode.isBinary
  · rw [execOfBinary binary]
    exact ready.computes setup i.opcode
  by_cases unary : i.opcode.isUnary
  · rw [execOfUnary unary]
    exact ready.applies setup i.opcode
  cases same : i.opcode with
  | push =>
    simp only [exec, same]
    split
    · rename_i v constant
      exact ready.pushes (plainScoped (Value.ofOperandPlain constant)) ready.cells
    · exact ready.skips setup _ _
  | pushNone =>
    simp only [exec, same]
    exact ready.pushes (plainScoped trivial) ready.cells
  | pushObject =>
    simp only [exec, same]
    split
    · rename_i items list
      exact ready.builds setup (List.forall_mem_nil _) (objectHolds holds same list)
    · exact ready.skips setup _ _
  | pop =>
    have cells := ready.cells
    simp only [exec, same]
    split
    · rename_i x rest stack
      rw [stack] at cells
      exact ready.advances (List.forall_mem_cons.mp cells).2
    · exact fails setup none id
  | getMember =>
    simp only [exec, same]
    exact ready.reads setup
  | proc =>
    simp only [exec, same]
    exact ready.makes setup same holds
  | call =>
    simp only [exec, same]
    split
    · rename_i items list
      exact ready.argues setup (List.forall_mem_nil _) (callHolds holds same list)
    · exact ready.skips setup _ _
  | ret =>
    rw [execReturn same]
    exact ready.returns
  | _ =>
    rw [same] at op binary unary
    first | exact (binary rfl).elim | exact (unary rfl).elim | cases op

theorem Sound.uses {n : String} (sound : m.Sound) (setup : Setup)
    (goes : GoesOn m.scopes m.current.scope m.current.routine.code (m.current.ip + 1) ⟨names, []⟩)
    (declared : n ∈ names.flatten) (op : i.opcode = .load ∨ i.opcode = .store)
    (matched : Scene.Matches m.scopes m.current.scope ⟨names, [.name n]⟩ m.current.stack) :
    (m.exec setup i).Scoped := by
  obtain ⟨source, rest, stack, matched⟩ := matched.named
  have cells := matched.values
  obtain ⟨place, found⟩ := goes.1.declaring declared
  have ready : (m.withStack rest).Ready names := Sound.ready ⟨sound.heap, sound.outer, sound.frames⟩ goes cells
  rcases op with op | op
  · obtain ⟨v, given⟩ := ScopeHeap.getDeclared found
    simp only [exec, op, execLoad, popName, stack, given]
    exact ready.pushes (sound.heap.get given) cells
  · simp only [exec, op, execStore, popAssignment, popName, stack]
    cases rest with
    | nil => exact fails setup none id
    | cons x rest =>
      obtain ⟨first, others⟩ := List.forall_mem_cons.mp cells
      have others : CellsScoped m.scopes rest := others
      have keeps := m.scopes.keepsDefine ((m.scopes.declaring? n m.current.scope).getD m.current.scope)
        n x.value
      have assigned := ready.withScopes keeps (sound.heap.define (first.keeps keeps))
      exact assigned.pushes (first.keeps keeps) (others.keeps keeps)

theorem Sound.defines {n : String} {inner inner' : List String} {outer : List (List String)}
    {top : List Due} {last : List (List String)} (sound : m.Sound) (setup : Setup)
    (here : m.scopes.Shows m.current.scope (inner :: outer)) (known : inner' ⊆ n :: inner)
    (next : scenes.closed.Stands m.current.routine.code (m.current.ip + 1) ⟨inner' :: outer, []⟩
      ⟨last, []⟩) (op : i.opcode = .define) (value : top = [] ∨ top = [.function n])
    (matched : Scene.Matches m.scopes m.current.scope ⟨inner :: outer, .name n :: top⟩
      m.current.stack) : (m.exec setup i).Scoped := by
  obtain ⟨source, rest, stack, matched⟩ := matched.named
  have defines {x : Cell} {rest : List Cell}
      (first : x.value.Scoped (m.scopes.define m.current.scope n x.value))
      (others : CellsScoped m.scopes rest) :
      ({ m with scopes := m.scopes.define m.current.scope n x.value }.advance rest).Scoped := by
    have keeps := m.scopes.keepsDefine m.current.scope n x.value
    have defined := sound.withScopes keeps (sound.heap.define first)
    exact .running ⟨⟨defined.heap, defined.outer, defined.frames⟩, _, ⟨here.define known, last, next⟩,
      .cells (others.keeps keeps)⟩
  rcases value with rfl | rfl
  · have cells := matched.values
    simp only [exec, op, execDefine, popAssignment, popName, stack]
    cases rest with
    | nil => exact fails setup none id
    | cons x rest =>
      obtain ⟨first, others⟩ := List.forall_mem_cons.mp cells
      exact defines (first.keeps (m.scopes.keepsDefine _ _ _)) others
  · obtain ⟨c, source', rest, rfl, scope, runs, cells⟩ := matched.made
    simp only [exec, op, execDefine, popAssignment, popName, stack]
    refine defines (x := ⟨.function c, source'⟩) (fun d inside => ?_) cells
    rw [Value.closures, List.mem_singleton] at inside
    rw [inside]
    exact ⟨_, scope ▸ here.define (List.Subset.refl _), runs⟩

omit m in
theorem closureMade (l : Level) (id : Nat) {params : List Operand} (body : Code)
    (shapes : ∀ x ∈ params, ParamShape x) :
    ∃ c, closureOf l id (.tuple (.list params) (.code body)) = .ok c := by
  have made (index : Nat) : ∃ ps, closureParams l index params = .ok ps := by
    induction params generalizing index with
    | nil => exact ⟨[], rfl⟩
    | cons x rest ih =>
      obtain ⟨⟨name, default, rfl⟩, others⟩ := List.forall_mem_cons.mp shapes
      obtain ⟨ps, made⟩ := ih others (index + 1)
      unfold closureParams
      simp only [Operand.text?, made]
      exact ⟨_, rfl⟩
  obtain ⟨ps, made⟩ := made 0
  rw [closureOf, made]
  exact ⟨_, rfl⟩

theorem Sound.makes {n : String} {params : List Operand} {body : Code} {last : List (List String)}
    (sound : m.Sound) (setup : Setup) (here : m.scopes.Shows m.current.scope names)
    (cells : CellsScoped m.scopes m.current.stack)
    (next : scenes.closed.Stands m.current.routine.code (m.current.ip + 1) ⟨names, [.function n]⟩
      ⟨last, []⟩) (op : i.opcode = .proc) (operand : i.operand = .tuple (.list params) (.code body))
    (shapes : ∀ x ∈ params, ParamShape x)
    (holds : scenes.Holds i ⟨names, []⟩ ⟨names, [.function n]⟩) : (m.exec setup i).Scoped := by
  obtain ⟨c, made⟩ := closureMade m.current m.nextId body shapes
  obtain ⟨runs, scope⟩ := closureRuns made (procHolds holds op operand)
  simp only [exec, op, execProc, operand, made]
  exact .running ⟨⟨sound.heap, sound.outer, sound.frames⟩, _, ⟨here, last, next⟩,
    .function scope runs cells⟩

theorem Sound.opens {last : List (List String)} (sound : m.Sound)
    (here : m.scopes.Shows m.current.scope names)
    (cells : CellsScoped m.scopes m.current.stack)
    (next : scenes.closed.Stands m.current.routine.code (m.current.ip + 1) ⟨[] :: names, []⟩
      ⟨last, []⟩) : m.beginScope.Scoped := by
  have keeps := m.scopes.keepsChild m.current.scope
  have opened := sound.withScopes keeps sound.heap.child
  exact .running ⟨⟨opened.heap, opened.outer, opened.frames⟩, ⟨[] :: names, []⟩,
    ⟨here.child, last, next⟩, .cells (cells.keeps keeps)⟩

theorem Sound.closes {inner : List String} {outer last : List (List String)} (sound : m.Sound)
    (here : m.scopes.Shows m.current.scope (inner :: outer)) (more : outer ≠ [])
    (cells : CellsScoped m.scopes m.current.stack)
    (next : scenes.closed.Stands m.current.routine.code (m.current.ip + 1) ⟨outer, []⟩ ⟨last, []⟩) :
    m.endScope.Scoped := by
  obtain ⟨scope, enclosing, visible⟩ := here.enclosing more
  unfold endScope
  simp only [enclosing, Option.getD_some]
  exact .running ⟨⟨sound.heap, sound.outer, sound.frames⟩, _, ⟨visible, last, next⟩, .cells cells⟩

theorem Sound.straight {p q : Scene} {last : List (List String)} (sound : m.Sound) (setup : Setup)
    (here : m.scopes.Shows m.current.scope p.names)
    (matched : p.Matches m.scopes m.current.scope m.current.stack) (effect : i.Scopes p q)
    (holds : scenes.Holds i p q)
    (next : scenes.closed.Stands m.current.routine.code (m.current.ip + 1) q ⟨last, []⟩) :
    (m.exec setup i).Scoped := by
  cases effect with
  | plain op => exact (sound.ready ⟨here, last, next⟩ matched.values).plain setup op holds
  | @name n names top op operand =>
    simp only [exec, op, operand, Value.ofOperand?]
    exact .running ⟨⟨sound.heap, sound.outer, sound.frames⟩, ⟨names, .name n :: top⟩,
      ⟨here, last, next⟩, .name matched⟩
  | use op declared => exact sound.uses setup ⟨here, last, next⟩ declared op matched
  | define op known value => exact sound.defines setup here known next op value matched
  | function op operand shapes =>
    exact sound.makes setup here matched.values next op operand shapes holds
  | beginScope op =>
    simp only [exec, op]
    exact sound.opens here matched.values next
  | endScope op inner =>
    simp only [exec, op]
    exact sound.closes here inner matched.values next

theorem Sound.branches {last : List (List String)} {target : Nat} (sound : m.Sound) (setup : Setup)
    (here : m.scopes.Shows m.current.scope names)
    (cells : CellsScoped m.scopes m.current.stack) (op : Opcode) (taken : Value → Bool)
    (there : scenes.closed.Stands m.current.routine.code target ⟨names, []⟩ ⟨last, []⟩)
    (next : scenes.closed.Stands m.current.routine.code (m.current.ip + 1) ⟨names, []⟩ ⟨last, []⟩) :
    (m.execBranch setup op target taken).Scoped := by
  unfold execBranch
  split
  · rename_i x rest stack
    rw [stack] at cells
    have cells := (List.forall_mem_cons.mp cells).2
    split
    · exact .running ⟨⟨sound.heap, sound.outer, sound.frames⟩, _, ⟨here, last, there⟩, .cells cells⟩
    · exact .running ⟨⟨sound.heap, sound.outer, sound.frames⟩, _, ⟨here, last, next⟩, .cells cells⟩
  · exact fails setup none id

theorem Sound.jumps {last : List (List String)} {offset : Int32} {target : Nat} (sound : m.Sound)
    (setup : Setup) (here : m.scopes.Shows m.current.scope names)
    (cells : CellsScoped m.scopes m.current.stack) (jump : i.opcode.isJump)
    (given : i.operand.offset? = some offset)
    (found : jumpTarget? m.current.ip offset m.current.routine.code.length = some target)
    (there : scenes.closed.Stands m.current.routine.code target ⟨names, []⟩ ⟨last, []⟩)
    (next : i.opcode ≠ .jmp →
      scenes.closed.Stands m.current.routine.code (m.current.ip + 1) ⟨names, []⟩ ⟨last, []⟩) :
    (m.exec setup i).Scoped := by
  rw [execOfJump jump]
  simp only [execJump, given, found]
  cases op : i.opcode with
  | jmp =>
    exact .running ⟨⟨sound.heap, sound.outer, sound.frames⟩, _, ⟨here, last, there⟩, .cells cells⟩
  | jz => exact sound.branches setup here cells _ _ there (next (by rw [op]; decide))
  | _ => exact sound.branches setup here cells _ _ there (next (by rw [op]; decide))

theorem Scoped.exec (declared : m.Scoped) (setup : Setup) (found : m.current.instr? = some i) :
    (m.exec setup i).Scoped := by
  obtain ⟨p, ⟨here, last, stands⟩, matched⟩ := declared.here
  cases stands.follows found with
  | straight q effect next =>
    exact declared.toSound.straight setup here matched effect.1 effect.2 next
  | jump q target jumps given reached there next =>
    obtain ⟨⟨jump, rfl, used⟩, -⟩ := jumps
    obtain ⟨names, top⟩ := p
    cases used
    exact declared.toSound.jumps setup here matched.values jump given reached there next
  | exit op used =>
    simp only [Machine.exec, op]
    obtain ⟨names, top⟩ := p
    cases used
    exact declared.toSound.ends setup matched.values

theorem limitDefined {limits : Limits} {fault : Fault} (beyond : m.overLimit? limits = some fault) :
    ¬ fault.Undefined := by
  unfold overLimit? overLimit?.overStack at beyond
  repeat' split at beyond
  all_goals cases beyond
  all_goals exact id

theorem Scoped.step (declared : m.Scoped) (setup : Setup) : (m.step setup).Scoped := by
  cases found : m.current.instr? with
  | some i =>
    have counted : Machine.Scoped { m with steps := m.steps + 1 } :=
      ⟨⟨declared.heap, declared.outer, declared.frames⟩, declared.here⟩
    unfold Machine.step
    simp only [found]
    split
    · rename_i fault beyond
      exact fails setup none (limitDefined beyond)
    · exact counted.exec setup found
  | none =>
    obtain ⟨p, ⟨here, last, stands⟩, matched⟩ := declared.here
    cases stands.ended found
    have cells := matched.values
    by_cases free : m.current.frames = []
    · rw [stepEnds found free]
      exact declared.toSound.ends setup cells
    · rw [stepReturns found free]
      have sound : (m.withStack (⟨.none, none⟩ :: m.current.stack)).Sound :=
        ⟨declared.heap, declared.outer, declared.frames⟩
      cases calls : m.current.frames with
      | nil => exact (free calls).elim
      | cons f frames =>
        exact sound.returns (List.forall_mem_cons.mpr ⟨plainScoped trivial, cells⟩) calls

theorem Scoped.run (declared : m.Scoped) (setup : Setup) (fuel : Nat) : (m.run setup fuel).Scoped := by
  induction fuel generalizing m with
  | zero => exact .running declared
  | succ fuel ih =>
    have stepped := declared.step setup
    rw [Machine.run]
    cases next : m.step setup with
    | running m' =>
      rw [next] at stepped
      cases stepped with
      | running declared => exact ih declared
    | ended m' => exact .ended m'
    | failed m' e =>
      rw [next] at stepped
      exact stepped

end Machine

end Quill
