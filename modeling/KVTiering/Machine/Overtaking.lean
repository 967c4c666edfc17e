import Mathlib.Data.List.Induction
import Mathlib.Data.Set.Basic

/-! # Actions that overtake each other

An action on a memory reads some addresses and writes some. Two actions are independent when neither writes what
the other one reads or writes; their order does not matter then. Work that is issued in one order and run in
another one leads to the same memory when every action overtakes only actions that it is independent of.
-/

namespace KVTiering

variable {α γ : Type*}

/-- A transformation of a memory that writes some addresses, as a function of what it reads. -/
structure Action (α γ : Type*) where
  reads : Set α
  writes : Set α
  run : (α → γ) → α → γ
  frame : ∀ memory address, address ∉ writes → run memory address = memory address
  locality : ∀ memory other, (∀ address ∈ reads, memory address = other address) →
    ∀ address ∈ writes, run memory address = run other address

namespace Action

/-- The action that does nothing. -/
def skip : Action α γ := ⟨∅, ∅, id, fun _ _ _ => rfl, fun _ _ _ _ member => member.elim⟩

@[simp] theorem skip_run (memory : α → γ) : (skip : Action α γ).run memory = memory := rfl

/-- Neither action writes what the other one reads or writes. -/
structure Independent (first second : Action α γ) : Prop where
  writes : ∀ address ∈ first.writes, address ∉ second.writes
  reads : ∀ address ∈ first.writes, address ∉ second.reads
  read : ∀ address ∈ first.reads, address ∉ second.writes

theorem Independent.symm {first second : Action α γ} (independent : first.Independent second) :
    second.Independent first :=
  ⟨fun address second first => independent.writes address first second,
    fun address second first => independent.read address first second,
    fun address second first => independent.reads address first second⟩

theorem independent_skip (action : Action α γ) : action.Independent skip :=
  ⟨fun _ _ => id, fun _ _ => id, fun _ _ => id⟩

/-- What an action writes does not change when an independent one has run before. -/
theorem Independent.run_of_mem {first second : Action α γ} (independent : first.Independent second)
    (memory : α → γ) {address : α} (member : address ∈ first.writes) :
    first.run (second.run memory) address = first.run memory address := by
  apply first.locality _ _ _ address member
  intro read inReads
  exact second.frame memory read (independent.read read inReads)

theorem Independent.commute {first second : Action α γ} (independent : first.Independent second)
    (memory : α → γ) : first.run (second.run memory) = second.run (first.run memory) := by
  funext address
  by_cases inFirst : address ∈ first.writes
  · have outside := independent.writes address inFirst
    rw [independent.run_of_mem memory inFirst, second.frame _ _ outside]
  · rw [first.frame _ _ inFirst]
    by_cases inSecond : address ∈ second.writes
    · rw [independent.symm.run_of_mem memory inSecond]
    · rw [second.frame _ _ inSecond, second.frame _ _ inSecond, first.frame _ _ inFirst]

/-! ### Sequences of actions -/

/-- Run some actions one after the other. -/
def runAll (actions : List (Action α γ)) (memory : α → γ) : α → γ :=
  actions.foldl (fun memory action => action.run memory) memory

@[simp] theorem runAll_nil (memory : α → γ) : runAll [] memory = memory := rfl

@[simp] theorem runAll_cons (action : Action α γ) (rest : List (Action α γ)) (memory : α → γ) :
    runAll (action :: rest) memory = runAll rest (action.run memory) := rfl

theorem runAll_append (first second : List (Action α γ)) (memory : α → γ) :
    runAll (first ++ second) memory = runAll second (runAll first memory) := List.foldl_append

/-- Addresses that no action writes keep their cell. -/
theorem runAll_frame {actions : List (Action α γ)} (memory : α → γ) {address : α}
    (outside : ∀ action ∈ actions, address ∉ action.writes) : runAll actions memory address = memory address := by
  induction actions generalizing memory with
  | nil => rfl
  | cons action rest ih =>
    rw [runAll_cons, ih _ fun other member => outside other (List.mem_cons_of_mem _ member)]
    exact action.frame _ _ (outside action List.mem_cons_self)

/-- An action that is independent of those before it may as well run first. -/
theorem runAll_overtake {before : List (Action α γ)} {action : Action α γ} (after : List (Action α γ))
    (independent : ∀ other ∈ before, action.Independent other) (memory : α → γ) :
    runAll (before ++ action :: after) memory = runAll (before ++ after) (action.run memory) := by
  induction before generalizing memory with
  | nil => rfl
  | cons first rest ih =>
    rw [List.cons_append, runAll_cons, ih fun other member => independent other (List.mem_cons_of_mem _ member)]
    rw [(independent first List.mem_cons_self).commute]
    rfl

end Action

end KVTiering
