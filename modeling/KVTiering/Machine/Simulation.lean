import KVTiering.Machine.Run
import Mathlib.Tactic.Push

/-! # Simulation and progress of labelled runs

A step of one system is answered by a run of another one, whose events a function of the source and its
event names. Then a whole run is answered by the events emitted along it. A rank that each step lowers bounds
the length of every run, and some run ends where no step is left.
-/

namespace KVTiering

variable {σ ε α β : Type*}

/-- The events of another system that a run emits, when each step emits those given by `emits`. -/
def emitted (step : σ → ε → Option σ) (emits : σ → ε → List β) : σ → List ε → List β
  | _, [] => []
  | state, event :: rest =>
    emits state event ++ (step state event).elim [] fun next => emitted step emits next rest

theorem emitted_append {step : σ → ε → Option σ} {emits : σ → ε → List β} {start middle : σ} {events : List ε}
    (run : Run (Steps step) start events middle) (more : List ε) :
    emitted step emits start (events ++ more) =
      emitted step emits start events ++ emitted step emits middle more := by
  induction run generalizing more with
  | nil => simp [emitted]
  | @snoc events source target event before moved ih =>
    have last : emitted step emits source [event] = emits source event := by
      simp only [emitted, show step source event = some target from moved, Option.elim_some, List.append_nil]
    rw [List.append_assoc, ih, ih, last, List.singleton_append, List.append_assoc]
    simp only [emitted, show step source event = some target from moved, Option.elim_some]

theorem emitted_single {step : σ → ε → Option σ} {emits : σ → ε → List β} {source target : σ} {event : ε}
    (moved : Steps step source event target) : emitted step emits source [event] = emits source event := by
  simp only [emitted, show step source event = some target from moved, Option.elim_some, List.append_nil]

/-- When each step of a run, taken from a related state, is answered by a run over the events it emits, the whole
run is answered by a run over all events emitted. The steps may be restricted further than the function that
computes them. -/
theorem Run.simulated {step : σ → ε → Option σ} {emits : σ → ε → List β} {moves : σ → ε → σ → Prop}
    {other : α → β → α → Prop} (computed : ∀ source event target, moves source event target →
      step source event = some target) (related : σ → α → Prop) {start final : σ} {first : α} {events : List ε}
    (run : Run moves start events final) (initially : related start first)
    (answered : ∀ source event target state, event ∈ events → related source state → moves source event target →
      ∃ next, Run other state (emits source event) next ∧ related target next) :
    ∃ last, Run other first (emitted step emits start events) last ∧ related final last := by
  induction run with
  | nil => exact ⟨first, .nil, initially⟩
  | @snoc events source target event before moved ih =>
    obtain ⟨state, answer, matched⟩ := ih fun source event target state member =>
      answered source event target state (List.mem_append_left _ member)
    obtain ⟨last, tail, kept⟩ := answered source event target state (by simp) matched moved
    refine ⟨last, ?_, kept⟩
    rw [emitted_append (before.mono computed), emitted_single (computed _ _ _ moved)]
    exact answer.append tail

/-- What one part of a system goes through: each step of the whole is a step of that part, under a name of its own,
or leaves the part alone. -/
theorem Run.project {moves : σ → ε → σ → Prop} {other : α → β → α → Prop} (part : σ → α) (name : ε → Option β)
    (answered : ∀ source event target, moves source event target →
      (∃ label, name event = some label ∧ other (part source) label (part target)) ∨
        name event = none ∧ part target = part source)
    {start final : σ} {events : List ε} (run : Run moves start events final) :
    Run other (part start) (events.filterMap name) (part final) := by
  induction run with
  | nil => exact .nil
  | snoc before moved ih =>
    rw [List.filterMap_append]
    rcases answered _ _ _ moved with ⟨label, same, stepped⟩ | ⟨same, kept⟩
    · rw [List.filterMap_cons_some same]
      exact ih.snoc stepped
    · rw [List.filterMap_cons_none same, List.filterMap_nil, List.append_nil, kept]
      exact ih

/-! ## Progress -/

section Progress

variable {step : σ → ε → σ → Prop}

/-- A rank lowered by every step bounds the length of a run, as long as what the steps rely on is kept. -/
theorem Run.length_le_rank (holds : σ → Prop) (rank : σ → ℕ)
    (preserved : ∀ source event target, holds source → step source event target → holds target)
    (lowers : ∀ source event target, holds source → step source event target → rank target < rank source)
    {start final : σ} {events : List ε} (run : Run step start events final) (initially : holds start) :
    events.length + rank final ≤ rank start ∧ holds final := by
  induction run with
  | nil => simpa using initially
  | snoc before moved ih =>
    obtain ⟨bound, held⟩ := ih
    refine ⟨?_, preserved _ _ _ held moved⟩
    have lower := lowers _ _ _ held moved
    simp only [List.length_append, List.length_singleton]
    omega

/-- Where every step lowers a rank, some run ends in a state that has no step. -/
theorem exists_run_to_end (holds : σ → Prop) (rank : σ → ℕ)
    (preserved : ∀ source event target, holds source → step source event target → holds target)
    (lowers : ∀ source event target, holds source → step source event target → rank target < rank source)
    (start : σ) (initially : holds start) :
    ∃ events final, Run step start events final ∧ ∀ event target, ¬ step final event target := by
  induction bound : rank start using Nat.strongRecOn generalizing start with
  | ind n ih =>
    by_cases stuck : ∀ event target, ¬ step start event target
    · exact ⟨[], start, .nil, stuck⟩
    · push Not at stuck
      obtain ⟨event, next, moved⟩ := stuck
      have lower := lowers _ _ _ initially moved
      obtain ⟨events, final, rest, ended⟩ :=
        ih (rank next) (bound ▸ lower) next (preserved _ _ _ initially moved) rfl
      exact ⟨event :: events, final, (Run.single moved).append rest, ended⟩

end Progress

end KVTiering
