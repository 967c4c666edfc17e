import Mathlib.Data.List.Induction

/-! # Since when

A machine that takes one step for each event goes through a list of events. What holds of its last state and did
not hold of its first one was made true by one of them, and has been true ever since.
-/

namespace KVTiering

variable {σ ε : Type*}

/-- `holds` was false before the event and true after it, and the events that followed have left it true. -/
structure HeldSince (step : σ → ε → σ) (start : σ) (holds : σ → Prop) (before : List ε) (event : ε)
    (after : List ε) : Prop where
  began : ¬ holds (before.foldl step start)
  since : ∀ middle, middle <+: after → holds ((before ++ event :: middle).foldl step start)

variable {step : σ → ε → σ} {start : σ} {holds : σ → Prop}

namespace HeldSince

variable {before after : List ε} {event : ε}

theorem now (held : HeldSince step start holds before event after) :
    holds ((before ++ event :: after).foldl step start) := held.since after (List.prefix_refl after)

/-- The event itself made it true. -/
theorem turned (held : HeldSince step start holds before event after) :
    ¬ holds (before.foldl step start) ∧ holds (step (before.foldl step start) event) := by
  refine ⟨held.began, ?_⟩
  have first := held.since [] List.nil_prefix
  rwa [List.foldl_append] at first

theorem snoc (held : HeldSince step start holds before event after) {last : ε}
    (still : holds ((before ++ event :: after ++ [last]).foldl step start)) :
    HeldSince step start holds before event (after ++ [last]) := by
  refine ⟨held.began, fun middle inside => ?_⟩
  rcases List.prefix_concat_iff.mp inside with rfl | earlier
  · simpa using still
  · exact held.since middle earlier

end HeldSince

/-- What was false at first and is true now has been true since some event. -/
theorem exists_heldSince (initially : ¬ holds start) {events : List ε} (now : holds (events.foldl step start)) :
    ∃ before event after, events = before ++ event :: after ∧ HeldSince step start holds before event after := by
  induction events using List.reverseRecOn with
  | nil => exact absurd now initially
  | append_singleton past last ih =>
    by_cases earlier : holds (past.foldl step start)
    · obtain ⟨before, event, after, rfl, held⟩ := ih earlier
      exact ⟨before, event, after ++ [last], by simp, held.snoc now⟩
    · refine ⟨past, last, [], rfl, earlier, fun middle inside => ?_⟩
      rwa [List.prefix_nil.mp inside]

end KVTiering
