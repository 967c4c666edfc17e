import Mathlib.Data.List.Basic

/-! # Finite labelled runs

A run of a labelled step relation records the events it went through, newest last, so that an
invariant can speak about the state reached and the history that led to it. Partial step functions
are used through the relation `Steps`, which holds exactly when the function succeeds.
-/

namespace KVTiering

variable {σ ε : Type*}

/-- The relation of a partial step function. -/
def Steps (step : σ → ε → Option σ) (source : σ) (event : ε) (target : σ) : Prop :=
  step source event = some target

/-- A finite run carrying exactly its events, extended at its end. -/
inductive Run (step : σ → ε → σ → Prop) (start : σ) : List ε → σ → Prop
  | nil : Run step start [] start
  | snoc {events : List ε} {middle final : σ} {event : ε} :
      Run step start events middle → step middle event final → Run step start (events ++ [event]) final

namespace Run

variable {step : σ → ε → σ → Prop}

theorem single {start final : σ} {event : ε} (moved : step start event final) :
    Run step start [event] final := by simpa using Run.snoc .nil moved

/-- Runs compose at their shared state. -/
theorem append {start middle final : σ} {first second : List ε} (left : Run step start first middle)
    (right : Run step middle second final) : Run step start (first ++ second) final := by
  induction right with
  | nil => simpa using left
  | snoc _ moved ih =>
    rw [← List.append_assoc]
    exact .snoc ih moved

/-- A run of one relation is a run of any relation that allows its steps. -/
theorem mono {other : σ → ε → σ → Prop} (weaker : ∀ source event target, step source event target →
    other source event target) {start final : σ} {events : List ε} (run : Run step start events final) :
    Run other start events final := by
  induction run with
  | nil => exact .nil
  | snoc _ moved ih => exact .snoc ih (weaker _ _ _ moved)

theorem eq_of_nil {start final : σ} (run : Run step start [] final) : final = start := by
  generalize nothing : ([] : List ε) = events at run
  cases run with
  | nil => rfl
  | snoc => simp at nothing

/-- A run can be cut after any of its events. -/
theorem cut {start final : σ} {first second : List ε} (run : Run step start (first ++ second) final) :
    ∃ middle, Run step start first middle ∧ Run step middle second final := by
  generalize all : first ++ second = events at run
  induction run generalizing second with
  | nil =>
    obtain ⟨rfl, rfl⟩ := List.append_eq_nil_iff.mp all
    exact ⟨_, .nil, .nil⟩
  | @snoc events middle final event before moved ih =>
    rcases List.eq_nil_or_concat' second with rfl | ⟨init, last, rfl⟩
    · rw [List.append_nil] at all
      exact ⟨final, all ▸ .snoc before moved, .nil⟩
    · rw [← List.append_assoc] at all
      obtain ⟨rfl, same⟩ := List.append_inj' all rfl
      obtain rfl := List.singleton_inj.mp same
      obtain ⟨at_cut, left, right⟩ := ih rfl
      exact ⟨at_cut, left, .snoc right moved⟩

/-- The states before and after one event of a run. -/
theorem at_event {start final : σ} {before after : List ε} {event : ε}
    (run : Run step start (before ++ event :: after) final) :
    ∃ source target, Run step start before source ∧ step source event target ∧
      Run step target after final := by
  have singled : before ++ event :: after = (before ++ [event]) ++ after := by simp
  obtain ⟨target, left, right⟩ := (singled ▸ run).cut
  obtain ⟨source, first, moved⟩ := left.cut
  generalize one : [event] = events at moved
  cases moved with
  | nil => cases one
  | @snoc events middle _ last prior step =>
    obtain ⟨rfl, same⟩ := List.append_inj' (show [] ++ [event] = events ++ [last] by simpa using one) rfl
    obtain rfl := List.singleton_inj.mp same
    obtain rfl := prior.eq_of_nil
    exact ⟨_, target, first, step, right⟩

/-- An invariant of the history and the state, established at the start and kept by each step. -/
theorem invariant {start final : σ} {events : List ε} (run : Run step start events final)
    (holds : List ε → σ → Prop) (initially : holds [] start)
    (preserved : ∀ past source event target, Run step start past source → holds past source →
      step source event target → holds (past ++ [event]) target) : holds events final := by
  induction run with
  | nil => exact initially
  | snoc before moved ih => exact preserved _ _ _ _ before ih moved

/-- A property of states kept by every step of the run. -/
theorem preserves {start final : σ} {events : List ε} (run : Run step start events final)
    (holds : σ → Prop) (initially : holds start)
    (preserved : ∀ source event target, event ∈ events → holds source → step source event target →
      holds target) : holds final := by
  induction run with
  | nil => exact initially
  | snoc before moved ih =>
    refine preserved _ _ _ (by simp) (ih ?_) moved
    exact fun source event target member => preserved source event target (by simp [member])

end Run

/-- Execute a tape of events; `none` as soon as one of them is not enabled. -/
def replay (step : σ → ε → Option σ) : σ → List ε → Option σ
  | state, [] => some state
  | state, event :: rest => (step state event).bind fun next => replay step next rest

/-- A tape that executes is a run. -/
theorem Run.of_replay {step : σ → ε → Option σ} {start final : σ} {events : List ε}
    (executed : replay step start events = some final) : Run (Steps step) start events final := by
  induction events generalizing start with
  | nil =>
    cases executed
    exact .nil
  | cons event rest ih =>
    obtain ⟨next, moved, suffix⟩ := Option.bind_eq_some_iff.mp executed
    exact (Run.single moved).append (ih suffix)

theorem replay_append (step : σ → ε → Option σ) (start : σ) (first second : List ε) :
    replay step start (first ++ second) = (replay step start first).bind fun middle => replay step middle second := by
  induction first generalizing start with
  | nil => rfl
  | cons event rest ih => simp only [List.cons_append, replay, ih, Option.bind_assoc]

/-- A run is a tape that executes. -/
theorem Run.replayed {step : σ → ε → Option σ} {start final : σ} {events : List ε}
    (run : Run (Steps step) start events final) : replay step start events = some final := by
  induction run with
  | nil => rfl
  | snoc before moved ih => simp only [replay_append, ih, Option.bind_some, replay, show step _ _ = some _ from moved]

end KVTiering
