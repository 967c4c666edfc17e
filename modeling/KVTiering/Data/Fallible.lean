import Mathlib.Data.List.Induction

/-! # Loops that may raise

A loop body that may raise is a step into `Except`. What each successful step keeps, a loop that
ends without raising keeps; the invariant may speak about the items already visited.
-/

namespace KVTiering

universe u

variable {α β ε : Type u}

theorem bind_eq_ok_iff {first : Except ε α} {next : α → Except ε β} {value : β} :
    first >>= next = .ok value ↔ ∃ middle, first = .ok middle ∧ next middle = .ok value := by
  cases first with
  | error raised => simp [bind, Except.bind]
  | ok middle => simp [bind, Except.bind]

/-- `if condition: raise error`. -/
def raiseIf {ε : Type*} (condition : Prop) [Decidable condition] (error : ε) : Except ε Unit :=
  if condition then .error error else .ok ()

@[simp] theorem raiseIf_eq_ok_iff {ε : Type*} {condition : Prop} [Decidable condition] {error : ε} {done : Unit} :
    raiseIf condition error = .ok done ↔ ¬condition := by
  by_cases raised : condition <;> simp [raiseIf, raised]

/-- Visit the items in order, stopping at the first one whose step raises. -/
def loop (step : α → β → Except ε α) : α → List β → Except ε α
  | state, [] => .ok state
  | state, item :: rest => step state item >>= fun next => loop step next rest

theorem loop_append (step : α → β → Except ε α) (state : α) (first second : List β) :
    loop step state (first ++ second) = loop step state first >>= fun next => loop step next second := by
  induction first generalizing state with
  | nil => rfl
  | cons item rest ih =>
    rw [List.cons_append, loop, loop]
    cases step state item with
    | error raised => rfl
    | ok next => exact ih next

/-- A loop whose steps append lists. -/
theorem loop_collect {γ : Type u} {step : List γ → β → Except ε (List γ)} {items : List β} {parts : β → List γ}
    (appends : ∀ item ∈ items, ∀ state, step state item = .ok (state ++ parts item)) (start : List γ) :
    loop step start items = .ok (start ++ items.flatMap parts) := by
  induction items generalizing start with
  | nil => simp [loop]
  | cons item rest ih =>
    rw [loop, appends item (List.mem_cons_self ..) start, List.flatMap_cons, ← List.append_assoc]
    exact ih (fun other member => appends other (List.mem_cons_of_mem _ member)) _

/-- An invariant of the items visited and the state, kept by each step that does not raise. -/
theorem loop_invariant {step : α → β → Except ε α} {start final : α} {items : List β}
    (done : loop step start items = .ok final) (holds : List β → α → Prop) (initially : holds [] start)
    (preserved : ∀ visited state item next, item ∈ items → holds visited state →
      step state item = .ok next → holds (visited ++ [item]) next) : holds items final := by
  induction items using List.reverseRecOn generalizing final with
  | nil =>
    cases done
    exact initially
  | append_singleton visited item ih =>
    rw [loop_append] at done
    obtain ⟨middle, before, last⟩ := bind_eq_ok_iff.mp done
    obtain ⟨next, moved, finished⟩ := bind_eq_ok_iff.mp last
    cases finished
    refine preserved _ _ _ _ (by simp) (ih before ?_) moved
    exact fun visited state item next member => preserved visited state item next (by simp [member])

end KVTiering
