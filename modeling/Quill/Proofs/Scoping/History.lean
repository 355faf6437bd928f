import Quill.Proofs.Scoping.Tables

/-! What a symbol table answers, said by what was done to it. A history is a list of events, the
latest first. A definition of it counts as long as its scope is open, that is, as long as no fewer
scopes are open than where it was made; of those that count, the latest in the innermost scope is
found. -/
namespace Quill

inductive ScopeEvent where
  | push
  | pop
  | define (name : String) (type : Ty) (mutable isIntrinsic : Bool)
  | defineType (name : String) (type : Ty)

namespace ScopeEvent

def apply (t : SymbolTable) : ScopeEvent → SymbolTable
  | push => t.push
  | pop => t.pop
  | define name type mutable isIntrinsic => (t.define name type mutable isIntrinsic).2
  | defineType name type => t.defineType name type

def isDefinition : ScopeEvent → Bool
  | push | pop => false
  | define .. | defineType .. => true

def symbol? (t : SymbolTable) : ScopeEvent → Option (String × VarSymbol)
  | define name type mutable isIntrinsic => some (name, (t.define name type mutable isIntrinsic).1)
  | _ => none

def type? (_ : SymbolTable) : ScopeEvent → Option (String × Ty)
  | defineType name type => some (name, type)
  | _ => none

end ScopeEvent

def SymbolTable.after : List ScopeEvent → SymbolTable
  | [] => .new
  | e :: before => e.apply (after before)

def openScopes : List ScopeEvent → Nat
  | [] => 1
  | .push :: before => openScopes before + 1
  | .pop :: before => max 1 (openScopes before - 1)
  | .define .. :: before | .defineType .. :: before => openScopes before

section
variable {α : Type}

/-- A definition that is made in a history, behind the events before it, in a scope that has not
been closed since. -/
structure StillOpen (given : SymbolTable → ScopeEvent → Option (String × α))
    (history : List ScopeEvent) (name : String) (x : α) (before : List ScopeEvent) : Prop where
  made : ∃ event, event :: before <:+ history ∧ given (.after before) event = some (name, x)
  stays : ∀ later, before <:+ later → later <:+ history → openScopes before ≤ openScopes later

theorem StillOpen.behind {given : SymbolTable → ScopeEvent → Option (String × α)}
    {history before : List ScopeEvent} {name : String} {x : α}
    (counts : StillOpen given history name x before) : before <:+ history := by
  obtain ⟨event, inside, -⟩ := counts.made
  exact (List.suffix_cons event before).trans inside

def Latest (given : SymbolTable → ScopeEvent → Option (String × α)) (history : List ScopeEvent)
    (name : String) (x : α) : Prop :=
  ∃ before, StillOpen given history name x before ∧
    ∀ y other, StillOpen given history name y other → openScopes other < openScopes before ∨
      openScopes other = openScopes before ∧ other.length ≤ before.length

end

/-- More events behind a history, which close the scopes they open and no others, and define nothing
outside of these. -/
structure SelfContained (history segment : List ScopeEvent) : Prop where
  closes : openScopes (segment ++ history) = openScopes history
  stays : ∀ part, part <:+ segment → openScopes history ≤ openScopes (part ++ history)
  inside : ∀ e part, e :: part <:+ segment → e.isDefinition →
    openScopes history < openScopes (part ++ history)

/-- The table answers as its history says. -/
structure SymbolTable.Follows (t : SymbolTable) (history : List ScopeEvent) : Prop where
  symbols : ∀ name symbol, t.lookup name = some symbol ↔
    Latest ScopeEvent.symbol? history name symbol
  types : ∀ name type, t.lookupType name = some type ↔ Latest ScopeEvent.type? history name type
  missing : ∀ name,
    (t.lookup name = none ↔
      ∀ symbol before, ¬ StillOpen ScopeEvent.symbol? history name symbol before) ∧
    (t.lookupType name = none ↔
      ∀ type before, ¬ StillOpen ScopeEvent.type? history name type before)
  -- An id that was given to a symbol names it ever after.
  ids : ∀ name type mutable isIntrinsic before,
    .define name type mutable isIntrinsic :: before <:+ history →
      ∃ id, ((SymbolTable.after before).define name type mutable isIntrinsic).1 =
        ⟨id, name, type, mutable, isIntrinsic⟩ ∧
      t.get? id = some ⟨id, name, type, mutable, isIntrinsic⟩
  -- Variables and types have a scope for each that is open, and the global one always is.
  heights : t.varScopes.all.length = openScopes history ∧
    t.typeScopes.all.length = openScopes history ∧ 1 ≤ openScopes history
  -- Scopes that were opened and closed in between leave no trace.
  segments : ∀ segment, SelfContained history segment → ∀ name,
    (SymbolTable.after (segment ++ history)).lookup name = t.lookup name ∧
    (SymbolTable.after (segment ++ history)).lookupType name = t.lookupType name

open SymbolTable

/-! ### Open scopes -/

section
variable {e : ScopeEvent} {before : List ScopeEvent}

theorem openPositive (history : List ScopeEvent) : 1 ≤ openScopes history := by
  induction history with
  | nil => exact Nat.le_refl 1
  | cons e before ih =>
    cases e with
    | push => exact Nat.le_add_left 1 _
    | pop => exact Nat.le_max_left 1 _
    | define => exact ih
    | defineType => exact ih

theorem definitionOpens (definition : e.isDefinition) (before : List ScopeEvent) :
    openScopes (e :: before) = openScopes before := by
  cases e with
  | push => cases definition
  | pop => cases definition
  | define => rfl
  | defineType => rfl

end

/-! ### What the scopes hold -/

section
variable {β : Type}

def ScopeEvent.onto (added : Option β) : ScopeEvent → List (List β) → List (List β)
  | push, scopes => [] :: scopes
  | pop, _ :: next :: outer => next :: outer
  | pop, scopes => scopes
  | define .., scopes | defineType .., scopes => scopes.modifyHead (added.toList ++ ·)

theorem behindLess {scope : List β} {few outer : List (List β)} (behind : few <:+ scope :: outer)
    (less : few.length < (scope :: outer).length) : few <:+ outer := by
  rcases List.suffix_cons_iff.mp behind with rfl | behind
  · exact (Nat.lt_irrefl _ less).elim
  · exact behind

def tagged : List (List β) → List (Nat × β)
  | [] => []
  | scope :: outer => scope.map (outer.length + 1, ·) ++ tagged outer

theorem taggedFlat (scopes : List (List β)) : (tagged scopes).map (·.2) = scopes.flatten := by
  induction scopes with
  | nil => rfl
  | cons scope outer ih =>
    rw [tagged, List.map_append, ih, List.map_map, List.flatten_cons]
    exact congrArg (· ++ outer.flatten) (List.map_id scope)

theorem taggedBound {scopes : List (List β)} : ∀ x ∈ tagged scopes, x.1 ≤ scopes.length := by
  induction scopes with
  | nil => nofun
  | cons scope outer ih =>
    intro x held
    rcases List.mem_append.mp held with here | around
    · obtain ⟨_, -, rfl⟩ := List.mem_map.mp here
      exact Nat.le_refl _
    · exact Nat.le_succ_of_le (ih x around)

theorem taggedClosed (added : Option β) (scope : List β) (outer : List (List β)) :
    tagged (ScopeEvent.pop.onto added (scope :: outer)) =
      (tagged (scope :: outer)).filter (·.1 ≤ max 1 outer.length) := by
  -- What is left when the innermost scope is closed, unless it is the only one.
  cases outer with
  | nil => exact (List.filter_eq_self.mpr fun x held => decide_eq_true (taggedBound x held)).symm
  | cons next outer =>
    have gone : ∀ x ∈ scope.map ((next :: outer).length + 1, ·), ¬ x.1 ≤ outer.length + 1 := by
      intro x held
      obtain ⟨_, -, rfl⟩ := List.mem_map.mp held
      exact Nat.not_succ_le_self _
    rw [tagged, List.length_cons, Nat.max_eq_right (Nat.le_add_left 1 _), List.filter_append,
      List.filter_eq_nil_iff.mpr, List.nil_append, List.filter_eq_self.mpr]
    · rfl
    · exact fun x held => decide_eq_true (taggedBound x held)
    · exact fun x held within => gone x held (of_decide_eq_true within)

end

structure Namespace (α : Type) where
  held : SymbolTable → List (List (String × α))
  given : SymbolTable → ScopeEvent → Option (String × α)
  new : held .new = [[]]
  apply : ∀ t (e : ScopeEvent), held (e.apply t) = e.onto (given t e) (held t)
  defines : ∀ t e d, given t e = some d → e.isDefinition

def variableNames : Namespace VarSymbol where
  held t := t.vars.map (·.map fun v => (v.name, v))
  given := ScopeEvent.symbol?
  new := rfl
  apply t e := by
    obtain ⟨symbols, ⟨_ | ⟨here, _ | ⟨next, outer⟩⟩, global⟩, types, parallel⟩ := t <;>
      cases e <;> rfl
  defines t e d given := by cases e <;> first | rfl | cases given

def typeNames : Namespace Ty where
  held t := t.typeScopes.all
  given := ScopeEvent.type?
  new := rfl
  apply t e := by
    obtain ⟨symbols, vars, ⟨_ | ⟨here, _ | ⟨next, outer⟩⟩, global⟩, parallel⟩ := t <;>
      cases e <;> rfl
  defines t e d given := by cases e <;> first | rfl | cases given

namespace Namespace

variable {α : Type} (names : Namespace α)

def find (t : SymbolTable) (name : String) : Option α :=
  ((names.held t).flatten.find? (·.1 = name)).map (·.2)

theorem heldOpen (history : List ScopeEvent) :
    (names.held (after history)).length = openScopes history := by
  induction history with
  | nil => exact congrArg List.length names.new
  | cons e before ih =>
    rw [after, names.apply]
    cases e with
    | push => exact congrArg (· + 1) ih
    | pop =>
      have positive := openPositive before
      rw [← ih] at positive
      rw [openScopes, ← ih]
      generalize names.held (after before) = scopes at positive
      rcases scopes with _ | ⟨scope, _ | ⟨next, outer⟩⟩
      · cases positive
      · rfl
      · exact (Nat.max_eq_right (Nat.le_add_left 1 _)).symm
    | define => exact (List.length_modifyHead ..).trans ih
    | defineType => exact (List.length_modifyHead ..).trans ih

theorem heldCons (history : List ScopeEvent) :
    ∃ scope outer, names.held (after history) = scope :: outer :=
  List.exists_cons_of_length_pos (by rw [names.heldOpen]; exact openPositive history)

theorem heldDefined {e : ScopeEvent} (definition : e.isDefinition) {history : List ScopeEvent}
    {scope : List (String × α)} {outer : List (List (String × α))}
    (held : names.held (after history) = scope :: outer) : names.held (after (e :: history)) =
      ((names.given (after history) e).toList ++ scope) :: outer := by
  rw [after, names.apply, held]
  cases e with
  | push => cases definition
  | pop => cases definition
  | define => rfl
  | defineType => rfl

def counting : List ScopeEvent → List (List ScopeEvent × String × α)
  | [] => []
  | e :: before => ((names.given (after before) e).map (before, ·)).toList ++
    (counting before).filter fun d => openScopes d.1 ≤ openScopes (e :: before)

variable {names} {history before : List ScopeEvent} {name : String} {x : α}

theorem countingBound : ∀ d ∈ names.counting history, openScopes d.1 ≤ openScopes history := by
  cases history with
  | nil => nofun
  | cons e before =>
    intro d counts
    rcases List.mem_append.mp counts with latest | older
    · obtain ⟨entry, given, rfl⟩ := Option.map_eq_some_iff.mp (Option.mem_toList.mp latest)
      exact Nat.le_of_eq (definitionOpens (names.defines _ e entry given) before).symm
    · exact of_decide_eq_true (List.mem_filter.mp older).2

theorem countingKept {e : ScopeEvent} (grows : openScopes before ≤ openScopes (e :: before)) :
    names.counting (e :: before) =
      ((names.given (after before) e).map (before, ·)).toList ++ names.counting before := by
  rw [counting, List.filter_eq_self.mpr]
  exact fun d counts => decide_eq_true (Nat.le_trans (countingBound d counts) grows)

theorem countingWithin (limit : Nat) :
    ((names.counting history).map fun d => (openScopes d.1, d.2)).filter (·.1 ≤ limit) =
      ((names.counting history).filter fun d => openScopes d.1 ≤ limit).map
        fun d => (openScopes d.1, d.2) :=
  List.filter_map

theorem taggedCounting (history : List ScopeEvent) : tagged (names.held (after history)) =
    (names.counting history).map fun d => (openScopes d.1, d.2) := by
  induction history with
  | nil => rw [after, names.new]; rfl
  | cons e before ih =>
    have opened := names.heldOpen before
    obtain ⟨scope, outer, held⟩ := names.heldCons before
    rw [held] at opened
    by_cases definition : e.isDefinition
    · have grows := Nat.le_of_eq (definitionOpens definition before).symm
      rw [names.heldDefined definition held, countingKept grows, List.map_append, ← ih, held]
      rw [tagged, tagged, List.map_append, List.append_assoc]
      cases names.given (after before) e with
      | none => rfl
      | some d => exact congrArg (fun n => [(n, d)] ++ _) opened
    · have nothing : names.given (after before) e = none :=
        Option.eq_none_iff_forall_ne_some.mpr fun d given =>
          definition (names.defines _ e d given)
      cases e with
      | push =>
        rw [after, names.apply, countingKept (Nat.le_succ _), nothing]
        exact ih
      | pop =>
        rw [after, names.apply, held, taggedClosed, counting, nothing, openScopes, ← opened]
        exact (congrArg _ (held ▸ ih)).trans (countingWithin _)
      | define => exact (definition rfl).elim
      | defineType => exact (definition rfl).elim

theorem countingIff :
    (before, name, x) ∈ names.counting history ↔ StillOpen names.given history name x before := by
  induction history with
  | nil =>
    refine ⟨nofun, fun counts => ?_⟩
    obtain ⟨event, inside, -⟩ := counts.made
    cases List.suffix_nil.mp inside
  | cons e rest ih =>
    rw [counting, List.mem_append, List.mem_filter, ih]
    constructor
    · rintro (latest | ⟨counts, opened⟩)
      · obtain ⟨d, given, same⟩ := Option.map_eq_some_iff.mp (Option.mem_toList.mp latest)
        cases same
        refine ⟨⟨e, List.suffix_rfl, given⟩, fun later behind inside => ?_⟩
        rcases List.suffix_cons_iff.mp inside with rfl | inside
        · exact Nat.le_of_eq (definitionOpens (names.defines _ e _ given) before).symm
        · exact Nat.le_of_eq (congrArg openScopes (behind.eq_of_length_le inside.length_le))
      · obtain ⟨event, inside, given⟩ := counts.made
        refine ⟨⟨event, inside.trans (List.suffix_cons e rest), given⟩, ?_⟩
        intro later behind inside
        rcases List.suffix_cons_iff.mp inside with rfl | inside
        · exact of_decide_eq_true opened
        · exact counts.stays later behind inside
    · intro counts
      obtain ⟨event, inside, given⟩ := counts.made
      rcases List.suffix_cons_iff.mp inside with same | inside
      · cases same
        exact .inl (Option.mem_toList.mpr (Option.map_eq_some_iff.mpr ⟨_, given, rfl⟩))
      · refine .inr ⟨⟨⟨event, inside, given⟩, fun later behind inside =>
          counts.stays later behind (inside.trans (List.suffix_cons e rest))⟩, ?_⟩
        exact decide_eq_true (counts.stays _ (((List.suffix_cons event before).trans inside).trans
          (List.suffix_cons e rest)) List.suffix_rfl)

theorem countingOrdered (history : List ScopeEvent) :
    (names.counting history).Pairwise fun d d' => d'.1.length < d.1.length := by
  induction history with
  | nil => exact .nil
  | cons e rest ih =>
    refine List.pairwise_append.mpr ⟨?_, ih.filter _, fun d latest d' older => ?_⟩
    · cases names.given (after rest) e with
      | none => exact .nil
      | some d => exact List.pairwise_singleton _ _
    · obtain ⟨entry, -, rfl⟩ := Option.map_eq_some_iff.mp (Option.mem_toList.mp latest)
      obtain ⟨event, inside, -⟩ := (countingIff.mp (List.mem_filter.mp older).1).made
      exact inside.length_le

theorem latestUnique {y : α} (first : Latest names.given history name x)
    (second : Latest names.given history name y) : x = y := by
  obtain ⟨before, counts, most⟩ := first
  obtain ⟨other, counts', most'⟩ := second
  obtain ⟨event, inside, given⟩ := counts.made
  obtain ⟨event', inside', given'⟩ := counts'.made
  have same : (event :: before).length = (event' :: other).length := by
    have := most y other counts'
    have := most' x before counts
    simp only [List.length_cons]
    omega
  cases (List.suffix_of_suffix_length_le inside inside' (Nat.le_of_eq same)).eq_of_length same
  cases given.symm.trans given'
  rfl

/-! ### What is found -/

theorem findCounting (history : List ScopeEvent) (name : String) :
    names.find (after history) name =
      ((names.counting history).find? (·.2.1 = name)).map (·.2.2) := by
  rw [find, ← taggedFlat, taggedCounting, List.map_map, List.find?_map, Option.map_map]
  rfl

theorem foundLatest (found : names.find (after history) name = some x) :
    Latest names.given history name x := by
  rw [findCounting] at found
  obtain ⟨⟨before, other, x⟩, held, rfl⟩ := Option.map_eq_some_iff.mp found
  obtain ⟨named, newer, older, whole, others⟩ := List.find?_eq_some_iff_append.mp held
  have same : name = other := (of_decide_eq_true named).symm
  subst same
  have counts : StillOpen names.given history name x before :=
    countingIff.mp (List.mem_of_find?_eq_some held)
  refine ⟨before, counts, fun y other counts' => ?_⟩
  have ordered := names.countingOrdered history
  have member := countingIff.mpr counts'
  rw [whole] at ordered member
  rcases List.mem_append.mp member with newest | member
  · exact absurd (others _ newest) (by simp)
  rcases List.mem_cons.mp member with same | member
  · cases same
    exact .inr ⟨rfl, Nat.le_refl _⟩
  · have earlier := List.rel_of_pairwise_cons (List.pairwise_append.mp ordered).2.1 member
    have behind := List.suffix_of_suffix_length_le counts'.behind counts.behind
      (Nat.le_of_lt earlier)
    exact (Nat.lt_or_eq_of_le (counts'.stays before behind counts.behind)).imp_right
      fun same => ⟨same, Nat.le_of_lt earlier⟩

theorem countedFound (counts : StillOpen names.given history name x before) :
    (names.find (after history) name).isSome := by
  rw [findCounting, Option.isSome_map]
  exact List.find?_isSome.mpr ⟨_, countingIff.mpr counts, decide_eq_true rfl⟩

theorem findLatest (name : String) (x : α) :
    names.find (after history) name = some x ↔ Latest names.given history name x := by
  refine ⟨foundLatest, fun latest => ?_⟩
  have ⟨before, counts, _⟩ := latest
  obtain ⟨y, found⟩ := Option.isSome_iff_exists.mp (countedFound counts)
  rw [found, latestUnique (foundLatest found) latest]

theorem findNone (name : String) : names.find (after history) name = none ↔
    ∀ x before, ¬ StillOpen names.given history name x before := by
  constructor
  · intro missing x before counts
    have found := countedFound counts
    rw [missing] at found
    cases found
  · intro none
    refine Option.eq_none_iff_forall_ne_some.mpr fun x found => ?_
    obtain ⟨before, counts, -⟩ := foundLatest found
    exact none x before counts

theorem heldContained {segment : List ScopeEvent} (contained : SelfContained history segment) :
    names.held (after (segment ++ history)) = names.held (after history) := by
  have inside (part : List ScopeEvent) (part' : part <:+ segment) :
      names.held (after history) <:+ names.held (after (part ++ history)) := by
    induction part with
    | nil => exact List.suffix_rfl
    | cons e part ih =>
      have around := ih ((List.suffix_cons e part).trans part')
      have opened := contained.stays (e :: part) part'
      rw [← names.heldOpen, ← names.heldOpen] at opened
      rw [List.cons_append] at opened ⊢
      obtain ⟨scope, outer, held⟩ := names.heldCons (part ++ history)
      by_cases definition : e.isDefinition
      · have within := contained.inside e part part' definition
        rw [← names.heldOpen, ← names.heldOpen, held] at within
        rw [held] at around
        rw [names.heldDefined definition held]
        exact (behindLess around within).trans (List.suffix_cons _ outer)
      · cases e with
        | push =>
          rw [after, names.apply]
          exact around.trans (List.suffix_cons [] _)
        | pop =>
          rw [after, names.apply, held] at opened ⊢
          rw [held] at around
          cases outer with
          | nil => exact around
          | cons next outer => exact behindLess around (Nat.lt_succ_of_le opened)
        | define => exact (definition rfl).elim
        | defineType => exact (definition rfl).elim
  have same := contained.closes
  rw [← names.heldOpen, ← names.heldOpen] at same
  exact ((inside segment List.suffix_rfl).eq_of_length same.symm).symm

end Namespace

namespace SymbolTable

variable {t : SymbolTable} {history : List ScopeEvent}

theorem lookupFind (t : SymbolTable) (name : String) :
    t.lookup name = variableNames.find t name := by
  rw [Namespace.find, variableNames, ← List.map_flatten, List.find?_map, Option.map_map]
  exact Option.map_id'.symm

theorem lookupTypeFind (t : SymbolTable) (name : String) :
    t.lookupType name = typeNames.find t name := rfl

theorem keepsSymbol {id : Nat} {symbol : VarSymbol} (e : ScopeEvent)
    (known : t.get? id = some symbol) : (e.apply t).get? id = some symbol := by
  cases e with
  | push => exact known
  | pop => exact known
  | define =>
    obtain ⟨within, same⟩ := Array.getElem?_eq_some_iff.mp known
    exact (Array.getElem?_push_lt within).trans (congrArg some same)
  | defineType => exact known

theorem definedKnown {name : String} {type : Ty} {mutable isIntrinsic : Bool}
    {before : List ScopeEvent}
    (made : .define name type mutable isIntrinsic :: before <:+ history) :
    (after history).get? (after before).symbols.size =
      some ⟨(after before).symbols.size, name, type, mutable, isIntrinsic⟩ := by
  induction history with
  | nil => cases List.suffix_nil.mp made
  | cons e rest ih =>
    rcases List.suffix_cons_iff.mp made with same | made
    · cases same
      exact Array.getElem?_push_size
    · exact keepsSymbol e (ih made)

/-- Lookups, ids and heights are as the history says, whatever it is. The ids are those of 32 bits as
long as no more than 2 ^ 32 symbols are defined. -/
theorem afterFollows (history : List ScopeEvent) : (after history).Follows history where
  symbols name symbol := by
    rw [lookupFind]
    exact variableNames.findLatest name symbol
  types name type := typeNames.findLatest name type
  missing name := by
    rw [lookupFind, lookupTypeFind]
    exact ⟨variableNames.findNone name, typeNames.findNone name⟩
  ids _ _ _ _ _ made := ⟨_, rfl, definedKnown made⟩
  heights := by
    refine ⟨?_, typeNames.heldOpen history, openPositive history⟩
    rw [← variableNames.heldOpen history, variableNames, List.length_map, vars]
  segments segment contained name := by
    simp only [lookupFind, lookupTypeFind, Namespace.find, Namespace.heldContained contained,
      and_self]

-- The latest definition in the inner scope, and behind that scope the outer one again.
example (type : Ty) : let define := ScopeEvent.define "x" type false false
    ((after [define, define, .push, define]).lookup "x").map (·.id) = some 2 ∧
    ((after [.pop, .pop, define, define, .push, define]).lookup "x").map (·.id) = some 0 :=
  ⟨rfl, rfl⟩

end SymbolTable

end Quill
