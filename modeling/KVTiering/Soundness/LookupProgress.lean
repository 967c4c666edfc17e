import KVTiering.Soundness.LookupResults
import Mathlib.Algebra.GroupWithZero.Nat

/-! # Answers arrive

Every query ever made is in a batch that was processed or in flight, in the order in which they were made: none is
lost, none is asked twice. The worker takes the posted batches in turn and needs a bounded number of steps for each,
and what the scheduler does meanwhile adds batches behind them. So a posted query is answered after a number of the
worker's steps that is fixed when one looks, and a key that stays tracked has its result from then on.
-/

namespace KVTiering.Soundness.AsyncLookup

open Model AsyncLookupManager

variable {m m' : AsyncLookupManager}

/-! ## Every query once -/

/-- The queries of the batches that have been processed, and those in flight. -/
def made (m : AsyncLookupManager) : List LookupQuery := (m.records.map LookupRecord.pending).flatten ++ unanswered m

/-- An empty batch is not worked on. -/
theorem pendingOf_taken (pending : List LookupQuery) :
    pendingOf (if batches pending = [] then .waiting else .processing pending [] (batches pending) []) = pending := by
  split
  · next none =>
    have all := perm_batches pending
    rw [none] at all
    exact all.nil_eq
  · rfl

/-- A step moves the queries on, or makes a new one. -/
theorem made_step {event : LookupEvent} (moved : AsyncLookupManager.step m event = some m') :
    made m' = made m ∧ m'.queries = m.queries ∨
      ∃ key reqContext, made m' = made m ++ [⟨key, reqContext, m.queries⟩] ∧ m'.queries = m.queries + 1 := by
  cases moves_of_step moved with
  | @lookup key reqContext =>
    rcases track_cases m.drainResults key reqContext with ⟨known, present, tracked⟩ | ⟨absent, tracked⟩
    · rw [AsyncLookupManager.lookup, tracked]
      exact .inl ⟨rfl, rfl⟩
    · rw [AsyncLookupManager.lookup, tracked]
      refine .inr ⟨key, reqContext, ?_, rfl⟩
      simp only [made, unanswered, List.append_assoc]
      rfl
  | flushNothing => exact .inl ⟨rfl, rfl⟩
  | flush => exact .inl ⟨by simp [made, unanswered, List.reduceOption_append], rfl⟩
  | drainResults => exact .inl ⟨rfl, rfl⟩
  | cleanup cleaned =>
    rw [(of_cleanup cleaned).1]
    exact .inl ⟨rfl, rfl⟩
  | postSentinel => exact .inl ⟨by simp [made, unanswered, List.reduceOption_append], rfl⟩
  | stop idle queue => exact .inl ⟨by simp [made, unanswered, idle, queue, pendingOf], rfl⟩
  | getBatch idle queue =>
    left
    constructor
    · simp only [made, unanswered, pendingOf_taken, idle, queue, List.reduceOption_cons_of_some, List.flatten_cons,
        List.append_assoc]
      rfl
    · rfl
  | answerGroup working => exact .inl ⟨by simp [made, unanswered, working, pendingOf], rfl⟩
  | postResults working => exact .inl ⟨by simp [made, unanswered, working, pendingOf], rfl⟩

/-- The queries made are numbered from zero on, in the order in which they are answered. -/
theorem number_made {events : List LookupEvent} (run : Run (Steps AsyncLookupManager.step) init events m) :
    (made m).map LookupQuery.number = List.range m.queries := by
  apply run.preserves fun m => (made m).map LookupQuery.number = List.range m.queries
  · rfl
  · intro source event target _ numbered moved
    rcases made_step moved with ⟨same, queries⟩ | ⟨key, reqContext, grown, queries⟩
    · rw [same, queries, numbered]
    · rw [grown, queries, List.map_append, numbered, List.map_singleton, List.range_succ]

/-- What is in a record is not in flight. -/
theorem not_unanswered_of_recorded {events : List LookupEvent} (run : Run (Steps AsyncLookupManager.step) init events m)
    {query : LookupQuery} {record : LookupRecord} (listed : record ∈ m.records) (member : query ∈ record.pending) :
    query ∉ unanswered m := by
  have distinct : (made m).Nodup := by
    apply List.Nodup.of_map LookupQuery.number
    rw [number_made run]
    exact List.nodup_range
  intro flying
  apply List.disjoint_of_nodup_append distinct
  · exact List.mem_flatten.mpr ⟨_, List.mem_map_of_mem listed, member⟩
  · exact flying

/-! ## The pace of the worker -/

/-- The queries that have been posted and are not answered. -/
def posted (m : AsyncLookupManager) : List LookupQuery := pendingOf m.worker ++ m.lookupQueue.reduceOption.flatten

/-- A batch is taken, asked for request by request, and its results are posted. -/
def batchSteps (batch : List LookupQuery) : ℕ := (batches batch).length + 2

/-- The steps that the worker has left in its batch. -/
def stepsLeft : LookupWorker → ℕ
  | .processing _ _ rest _ => rest.length + 1
  | _ => 0

/-- The steps in which the worker answers all that is posted. -/
def pace (m : AsyncLookupManager) : ℕ := stepsLeft m.worker + (m.lookupQueue.reduceOption.map batchSteps).sum

/-- The query is in a batch that has been processed. -/
def Recorded (m : AsyncLookupManager) (query : LookupQuery) : Prop := ∃ record ∈ m.records, query ∈ record.pending

/-- Some queries are answered, or the worker is on its way through the batches that hold the others, and has so many
steps to go. -/
inductive Serving (queries : List LookupQuery) (m : AsyncLookupManager) (steps : ℕ) : Prop
  | answered (all : ∀ query ∈ queries, Recorded m query) : Serving queries m steps
  | underway (front : List (List LookupQuery)) (back : List (Option (List LookupQuery)))
      (queue : m.lookupQueue = front.map some ++ back) (going : m.worker ≠ .stopped)
      (held : ∀ query ∈ queries, Recorded m query ∨ query ∈ pendingOf m.worker ∨ query ∈ front.flatten)
      (left : stepsLeft m.worker + (front.map batchSteps).sum ≤ steps) : Serving queries m steps

theorem Recorded.step {query : LookupQuery} (recorded : Recorded m query) {event : LookupEvent}
    (moved : AsyncLookupManager.step m event = some m') : Recorded m' query := by
  obtain ⟨record, listed, member⟩ := recorded
  cases moves_of_step moved with
  | @lookup key reqContext =>
    rcases track_cases m.drainResults key reqContext with ⟨known, present, tracked⟩ | ⟨absent, tracked⟩ <;>
      rw [AsyncLookupManager.lookup, tracked] <;> exact ⟨record, listed, member⟩
  | cleanup cleaned =>
    rw [(of_cleanup cleaned).1]
    exact ⟨record, listed, member⟩
  | postResults => exact ⟨record, List.mem_append_left _ listed, member⟩
  | _ => exact ⟨record, listed, member⟩

theorem stepsLeft_taken (pending : List LookupQuery) :
    stepsLeft (if batches pending = [] then .waiting else .processing pending [] (batches pending) []) <
      batchSteps pending := by
  unfold batchSteps
  split
  · exact Nat.succ_pos _
  · simp [stepsLeft]

/-- A worker that waits with nothing in front of it has answered everything. -/
theorem recorded_of_idle {queries : List LookupQuery} (idle : m.worker = .waiting)
    (held : ∀ query ∈ queries, Recorded m query ∨ query ∈ pendingOf m.worker ∨
      query ∈ ([] : List (List LookupQuery)).flatten) :
    ∀ query ∈ queries, Recorded m query := by
  intro query member
  rcases held query member with recorded | worker | front
  · exact recorded
  · rw [idle] at worker
    cases worker
  · cases front

/-- The worker's steps bring it closer; the calls of the scheduler add to what is behind. -/
theorem Serving.step {queries : List LookupQuery} {steps : ℕ} (serving : Serving queries m steps)
    {event : LookupEvent} (moved : AsyncLookupManager.step m event = some m') :
    Serving queries m' (steps - if event.ofWorker then 1 else 0) := by
  cases serving with
  | answered all => exact .answered fun query member => (all query member).step moved
  | underway front back queue going held left =>
    have stays : ∀ query ∈ queries, Recorded m' query ∨ query ∈ pendingOf m.worker ∨ query ∈ front.flatten :=
      fun query member => (held query member).imp_left fun recorded => recorded.step moved
    cases moves_of_step moved with
    | @lookup key reqContext =>
      have same : (m.lookup key reqContext).2.lookupQueue = m.lookupQueue := by
        rcases track_cases m.drainResults key reqContext with ⟨known, present, tracked⟩ | ⟨absent, tracked⟩ <;>
          rw [AsyncLookupManager.lookup, tracked] <;> rfl
      rw [← worker_lookup m key reqContext] at going stays left
      exact .underway front back (same.trans queue) going stays left
    | flushNothing => exact .underway front back queue going stays left
    | flush =>
      refine .underway front (back ++ [some m.lookupBatch]) ?_ going stays left
      simp [queue]
    | drainResults => exact .underway front back queue going stays left
    | cleanup cleaned =>
      rw [(of_cleanup cleaned).1] at stays ⊢
      exact .underway front back queue going stays left
    | postSentinel =>
      refine .underway front (back ++ [none]) ?_ going stays left
      simp [queue]
    | stop idle sentinel =>
      cases front with
      | nil => exact .answered fun query member => (recorded_of_idle idle held query member).step moved
      | cons batch front => simp [queue] at sentinel
    | getBatch idle taken =>
      cases front with
      | nil => exact .answered fun query member => (recorded_of_idle idle held query member).step moved
      | cons batch front =>
        rw [queue, List.map_cons, List.cons_append, List.cons.injEq] at taken
        obtain ⟨same, rest⟩ := taken
        obtain rfl := Option.some.inj same
        refine .underway front back rest.symm ?_ (fun query member => ?_) ?_
        · dsimp only
          split <;> simp
        · simp only [pendingOf_taken]
          simpa [idle, pendingOf] using stays query member
        · have sooner := stepsLeft_taken batch
          simp only [List.map_cons, List.sum_cons, LookupEvent.ofWorker, if_true] at left ⊢
          omega
    | answerGroup working =>
      refine .underway front back queue (by simp) ?_ ?_
      · simpa only [working, pendingOf] using stays
      · simp only [working, stepsLeft, LookupEvent.ofWorker, if_true, List.length_cons] at left ⊢
        omega
    | postResults working =>
      refine .underway front back queue (by simp) (fun query member => ?_) ?_
      · rcases held query member with recorded | worker | front
        · exact .inl (recorded.step moved)
        · rw [working] at worker
          exact .inl ⟨_, List.mem_append_right _ (List.mem_singleton.mpr rfl), worker⟩
        · exact .inr (.inr front)
      · simp only [working, stepsLeft, LookupEvent.ofWorker, if_true] at left ⊢
        omega

theorem Serving.run {queries : List LookupQuery} {steps : ℕ} (serving : Serving queries m steps)
    {events : List LookupEvent} (run : Run (Steps AsyncLookupManager.step) m events m') :
    Serving queries m' (steps - events.countP LookupEvent.ofWorker) := by
  induction run with
  | nil => exact serving
  | @snoc events middle final event before moved ih =>
    have next := ih.step moved
    rwa [Nat.sub_sub, ← List.countP_singleton, ← List.countP_append] at next

/-- At the end of its way the worker has answered all of the queries. -/
theorem Serving.done {queries : List LookupQuery} (serving : Serving queries m 0) :
    ∀ query ∈ queries, Recorded m query := by
  cases serving with
  | answered all => exact all
  | underway front back _ going held left =>
    have idle : m.worker = .waiting := by
      cases working : m.worker with
      | waiting => rfl
      | processing => simp [working, stepsLeft] at left
      | stopped => exact absurd working going
    cases front with
    | nil => exact recorded_of_idle idle held
    | cons batch front => simp [batchSteps] at left

/-- Before that, the worker has a step to take. -/
theorem Serving.exists_step {queries : List LookupQuery} {steps : ℕ} (serving : Serving queries m steps)
    (waits : ∃ query ∈ queries, ¬ Recorded m query) :
    ∃ event, event.ofWorker = true ∧ (m.step event).isSome = true := by
  obtain ⟨query, member, missing⟩ := waits
  cases serving with
  | answered all => exact absurd (all query member) missing
  | underway front back queue going held left =>
    cases working : m.worker with
    | waiting =>
      refine ⟨.getBatch, rfl, ?_⟩
      cases front with
      | nil => exact absurd (recorded_of_idle working held query member) missing
      | cons batch front => simp [AsyncLookupManager.step, getBatch, working, queue]
    | processing pending groups rest results =>
      cases rest with
      | nil => exact ⟨.postResults, rfl, by simp [AsyncLookupManager.step, postResults, working]⟩
      | cons group rest => exact ⟨.answerGroup none, rfl, by simp [AsyncLookupManager.step, answerGroup, working]⟩
    | stopped => exact absurd working going

/-! ## From any state on -/

/-- No end has been posted. -/
def Open (m : AsyncLookupManager) : Prop := none ∉ m.lookupQueue ∧ m.worker ≠ .stopped

theorem Open.step (opened : Open m) {event : LookupEvent} (going : event ≠ .postSentinel)
    (moved : AsyncLookupManager.step m event = some m') : Open m' := by
  obtain ⟨unended, running⟩ := opened
  cases moves_of_step moved with
  | @lookup key reqContext =>
    rcases track_cases m.drainResults key reqContext with ⟨known, present, tracked⟩ | ⟨absent, tracked⟩ <;>
      rw [AsyncLookupManager.lookup, tracked] <;> exact ⟨unended, running⟩
  | flush => exact ⟨by simpa using unended, running⟩
  | cleanup cleaned =>
    rw [(of_cleanup cleaned).1]
    exact ⟨unended, running⟩
  | postSentinel => exact absurd rfl going
  | stop idle queue => simp [queue] at unended
  | getBatch idle queue =>
    rw [queue, List.mem_cons, not_or] at unended
    refine ⟨unended.2, ?_⟩
    dsimp only
    split <;> simp
  | answerGroup | postResults => exact ⟨unended, by simp⟩
  | _ => exact ⟨unended, running⟩

theorem open_init : Open init := ⟨List.not_mem_nil, by simp [init]⟩

theorem open_of_run {events : List LookupEvent} (run : Run (Steps AsyncLookupManager.step) init events m)
    (going : .postSentinel ∉ events) : Open m := by
  apply run.preserves Open open_init
  intro source event target member opened moved
  exact opened.step (fun same => going (same ▸ member)) moved

theorem map_some_reduceOption {α : Type*} {items : List (Option α)} (all : none ∉ items) :
    items.reduceOption.map some = items := by
  induction items with
  | nil => rfl
  | cons first rest ih =>
    rw [List.mem_cons, not_or] at all
    obtain ⟨item, rfl⟩ := Option.ne_none_iff_exists'.mp (Ne.symm all.1)
    rw [List.reduceOption_cons_of_some, List.map_cons, ih all.2]

theorem Open.serving (opened : Open m) : Serving (posted m) m (pace m) := by
  refine .underway m.lookupQueue.reduceOption [] ?_ opened.2 (fun query member => ?_) le_rfl
  · rw [map_some_reduceOption opened.1, List.append_nil]
  · exact .inr (List.mem_append.mp member)

/-- As long as the key stays tracked, no other query is made for it. -/
theorem posted_of_tracked {key : OffloadKey} (flushed : key ∉ m.lookupBatch.map LookupQuery.key)
    {events : List LookupEvent} (run : Run (Steps AsyncLookupManager.step) m events m')
    (tracked : ∀ past middle, past <+: events → Run (Steps AsyncLookupManager.step) m past middle →
      middle.lookupState.get? key ≠ none) : ∀ query ∈ unanswered m', query.key = key → query ∈ posted m := by
  suffices every : events <+: events → ∀ query ∈ unanswered m', query.key = key → query ∈ posted m from
    every (List.prefix_refl events)
  refine run.invariant (fun past state => past <+: events → ∀ query ∈ unanswered state, query.key = key →
    query ∈ posted m) ?_ ?_
  · intro _ query member same
    rw [unanswered, ← List.append_assoc, List.mem_append] at member
    rcases member with earlier | collected
    · exact earlier
    · exact absurd (List.mem_map.mpr ⟨query, collected, same⟩) flushed
  · intro past source event target before known moved inside
    have earlier : past <+: events := (List.prefix_append past [event]).trans inside
    refine unanswered_step (fun query => query.key = key → query ∈ posted m) (known earlier) moved ?_
    rintro asked reqContext rfl absent rfl
    exact absurd absent (tracked past source earlier before)

/-- Answers arrive. The queries made are those of the batches processed and those in flight, in one order. Unless the
worker was told to end, the queries that have been posted are answered once it has taken `pace` more steps, whatever
the scheduler does meanwhile, and until then it has a step to take. From then on each key that was posted, and has
stayed tracked, has a result. -/
theorem answers_arrive {events : List LookupEvent} (run : Run (Steps AsyncLookupManager.step) init events m)
    (going : .postSentinel ∉ events) {more : List LookupEvent} (later : Run (Steps AsyncLookupManager.step) m more m') :
    ((m'.records.map LookupRecord.pending).flatten ++ unanswered m').map LookupQuery.number = List.range m'.queries ∧
      ((∃ query ∈ posted m, ¬ Recorded m' query) →
        ∃ event, event.ofWorker = true ∧ (m'.step event).isSome = true) ∧
      (pace m ≤ more.countP LookupEvent.ofWorker → (∀ query ∈ posted m, Recorded m' query) ∧
        ∀ key state, key ∉ m.lookupBatch.map LookupQuery.key →
          (∀ past middle, past <+: more → Run (Steps AsyncLookupManager.step) m past middle →
            middle.lookupState.get? key ≠ none) →
          m'.drainResults.lookupState.get? key = some state → state.result ≠ none) := by
  have whole := run.append later
  have serving := (open_of_run run going).serving.run later
  refine ⟨number_made whole, serving.exists_step, fun enough => ?_⟩
  rw [Nat.sub_eq_zero_of_le enough] at serving
  refine ⟨serving.done, fun key state flushed tracked found unknown => ?_⟩
  have flying : key ∈ (unanswered m').map LookupQuery.key := by
    simp only [unanswered, List.map_append, List.mem_append]
    rcases awaited_drainResults (run_inv whole).awaited found unknown with batch | ⟨batch, queued, member⟩ | worker
    · exact .inr (.inr batch)
    · obtain ⟨query, asked, same⟩ := List.mem_map.mp member
      refine .inr (.inl (List.mem_map.mpr ⟨query, List.mem_flatten.mpr ⟨batch, ?_, asked⟩, same⟩))
      exact List.reduceOption_mem_iff.mpr queued
    · exact .inl worker
  obtain ⟨query, inFlight, same⟩ := List.mem_map.mp flying
  obtain ⟨record, listed, member⟩ := serving.done query (posted_of_tracked flushed later tracked query inFlight same)
  exact not_unanswered_of_recorded whole listed member inFlight

/-- Two requests have posted a batch. -/
def postedBatch : List LookupEvent := [.lookup [1] ⟨"r1", none⟩, .lookup [2] ⟨"r2", none⟩, .flush]

/-- The worker answers it, one of the lookups raises, and the scheduler asks for another key meanwhile. -/
def answeredMeanwhile : List LookupEvent :=
  [.getBatch, .answerGroup (some [true]), .lookup [3] ⟨"r1", none⟩, .flush, .answerGroup none, .postResults]

theorem answers_arrive_meanwhile : ∃ m m', replay AsyncLookupManager.step init postedBatch = some m ∧
    replay AsyncLookupManager.step m answeredMeanwhile = some m' ∧
    pace m = answeredMeanwhile.countP LookupEvent.ofWorker ∧
    ∀ state, m'.drainResults.lookupState.get? [2] = some state → state.result ≠ none := by
  have executed : ((replay AsyncLookupManager.step init postedBatch).map fun m =>
      (pace m, decide ([2] ∈ m.lookupBatch.map LookupQuery.key),
        (replay AsyncLookupManager.step m answeredMeanwhile).isSome,
        answeredMeanwhile.inits.all fun past => (replay AsyncLookupManager.step m past).all fun middle =>
          (middle.lookupState.get? [2]).isSome)) = some (4, false, true, true) := by decide
  obtain ⟨m, replayed, facts⟩ := Option.map_eq_some_iff.mp executed
  simp only [Prod.mk.injEq, decide_eq_false_iff_not] at facts
  obtain ⟨steps, flushed, ends, tracked⟩ := facts
  obtain ⟨m', later⟩ := Option.isSome_iff_exists.mp ends
  obtain ⟨-, -, arrived⟩ := answers_arrive (Run.of_replay replayed) (by simp [postedBatch]) (Run.of_replay later)
  have enough : pace m = answeredMeanwhile.countP LookupEvent.ofWorker := steps
  refine ⟨m, m', replayed, later, enough, fun state => (arrived enough.le).2 [2] state flushed ?_⟩
  intro past middle inside reached
  have held := List.all_eq_true.mp tracked past ((List.mem_inits ..).mpr inside)
  rw [reached.replayed, Option.all_some] at held
  exact Option.isSome_iff_ne_none.mp held

end KVTiering.Soundness.AsyncLookup
