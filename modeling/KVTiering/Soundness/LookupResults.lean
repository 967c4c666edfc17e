import KVTiering.Soundness.AsyncLookup

/-! # What holds of every result

A result travels from the worker's list to a posted batch, and from there into the entry of its key, if there
is one. What holds of each answer that the worker gives holds of every result an entry has; and what holds of
each query when it is made holds of it until its result is posted.
-/

namespace KVTiering.Soundness.AsyncLookup

open Model AsyncLookupManager

/-- The results of the groups that the worker has answered. -/
def resultsOf : LookupWorker → List LookupAnswer
  | .processing _ _ _ results => results
  | _ => []

/-- Every result given so far, wherever it is, satisfies a predicate of its key, its value and its query. -/
structure Vouched (holds : OffloadKey → Bool → ℕ → Prop) (m : AsyncLookupManager) : Prop where
  entries : ∀ key state hit, m.lookupState.get? key = some state → state.result = some hit →
    ∃ number, state.answered = some number ∧ holds key hit number
  posted : ∀ results ∈ m.pendingResults, ∀ answer ∈ results, holds answer.key answer.hit answer.number
  working : ∀ answer ∈ resultsOf m.worker, holds answer.key answer.hit answer.number

variable {holds weaker : OffloadKey → Bool → ℕ → Prop} {m m' : AsyncLookupManager}

theorem vouched_init : Vouched holds init := by
  constructor
  · intro key state hit found
    cases found
  · intro results member
    cases member
  · intro answer member
    cases member

theorem Vouched.mono (vouched : Vouched holds m)
    (weaken : ∀ key hit number, holds key hit number → weaker key hit number) : Vouched weaker m := by
  constructor
  · intro key state hit found known
    obtain ⟨number, answered, held⟩ := vouched.entries key state hit found known
    exact ⟨number, answered, weaken _ _ _ held⟩
  · intro results member answer listed
    exact weaken _ _ _ (vouched.posted results member answer listed)
  · intro answer member
    exact weaken _ _ _ (vouched.working answer member)

theorem Vouched.drained (vouched : Vouched holds m) {key : OffloadKey} {state : LookupState} {hit : Bool}
    (found : m.drainResults.lookupState.get? key = some state) (known : state.result = some hit) :
    ∃ number, state.answered = some number ∧ holds key hit number := by
  rw [get?_drainResults] at found
  obtain ⟨old, before, rfl⟩ := Option.map_eq_some_iff.mp found
  cases last : lastAnswer m.pendingResults.flatten key with
  | none =>
    rw [last] at known
    exact vouched.entries key old hit before known
  | some answer =>
    obtain ⟨member, rfl⟩ := mem_of_lastAnswer last
    rw [last] at known
    obtain rfl := Option.some.inj known
    obtain ⟨results, posted, listed⟩ := List.mem_flatten.mp member
    exact ⟨answer.number, rfl, vouched.posted results posted answer listed⟩

theorem Vouched.drainResults (vouched : Vouched holds m) : Vouched holds m.drainResults := by
  constructor
  · intro key state hit found known
    exact vouched.drained found known
  · intro results member
    cases member
  · exact vouched.working

@[simp] theorem pendingResults_lookup (m : AsyncLookupManager) (key : OffloadKey) (reqContext : ReqContext) :
    (m.lookup key reqContext).2.pendingResults = [] := by
  rcases track_cases m.drainResults key reqContext with ⟨known, -, tracked⟩ | ⟨-, tracked⟩
  · rw [AsyncLookupManager.lookup, tracked]
    rfl
  · rw [AsyncLookupManager.lookup, tracked]
    rfl

@[simp] theorem worker_lookup (m : AsyncLookupManager) (key : OffloadKey) (reqContext : ReqContext) :
    (m.lookup key reqContext).2.worker = m.worker := by
  rcases track_cases m.drainResults key reqContext with ⟨known, -, tracked⟩ | ⟨-, tracked⟩
  · rw [AsyncLookupManager.lookup, tracked]
    rfl
  · rw [AsyncLookupManager.lookup, tracked]
    rfl

theorem Vouched.lookup (vouched : Vouched holds m) (key : OffloadKey) (reqContext : ReqContext) :
    Vouched holds (m.lookup key reqContext).2 := by
  have drained := vouched.drainResults
  constructor
  · intro other state hit found known
    rw [get?_lookup] at found
    split at found
    · next same =>
      obtain rfl := Option.some.inj found
      rcases track_cases m.drainResults key reqContext with ⟨old, present, tracked⟩ | ⟨-, tracked⟩
      · rw [tracked] at known ⊢
        rw [same]
        exact drained.entries key old hit present known
      · rw [tracked] at known
        cases known
    · exact drained.entries other state hit found known
  · rw [pendingResults_lookup]
    intro results member
    cases member
  · rw [worker_lookup]
    exact vouched.working

/-- The answer at an index is the hit there for the query there. -/
theorem mem_answers {queries : List LookupQuery} {hits : List Bool} {answer : LookupAnswer}
    (member : answer ∈ answers queries (some hits)) : ∃ (index : ℕ) (query : LookupQuery) (hit : Bool),
      queries[index]? = some query ∧ hits[index]? = some hit ∧ answer = ⟨query.key, hit, query.number⟩ := by
  obtain ⟨⟨query, hit⟩, zipped, rfl⟩ := List.mem_map.mp member
  obtain ⟨index, found⟩ := List.mem_iff_getElem?.mp zipped
  obtain ⟨query_at, hit_at⟩ := List.getElem?_zip_eq_some.mp found
  exact ⟨index, query, hit, query_at, hit_at, rfl⟩

/-- The answers for a lookup that raised. -/
theorem hit_of_raised {queries : List LookupQuery} {answer : LookupAnswer} (member : answer ∈ answers queries none) :
    answer.hit = false := by
  obtain ⟨-, hits⟩ : GroupAnswered queries none (answers queries none) := groupAnswered_answers (by simp)
  have listed : answer.hit ∈ queries.map fun _ => false := by
    rw [Option.getD_none] at hits
    rw [← hits]
    exact List.mem_map_of_mem member
  obtain ⟨_, -, same⟩ := List.mem_map.mp listed
  exact same.symm

/-- A step keeps what holds of all results, if it holds of the answers that the step gives. -/
theorem Vouched.step (vouched : Vouched holds m) {event : LookupEvent}
    (moved : AsyncLookupManager.step m event = some m')
    (given : ∀ outcome, event = .answerGroup outcome →
      ∀ answer ∈ answers m.worker.group outcome, holds answer.key answer.hit answer.number) : Vouched holds m' := by
  cases moves_of_step moved with
  | lookup => exact vouched.lookup _ _
  | flushNothing => exact vouched
  | flush => exact ⟨vouched.entries, vouched.posted, vouched.working⟩
  | drainResults => exact vouched.drainResults
  | cleanup cleaned =>
    obtain ⟨shape, entries⟩ := of_cleanup cleaned
    rw [shape]
    refine ⟨fun key state hit found known => ?_, vouched.posted, vouched.working⟩
    rw [entries, Option.filter_eq_some_iff, Option.map_eq_some_iff] at found
    obtain ⟨⟨old, before, rfl⟩, -⟩ := found
    split at known
    · next shared =>
      rw [if_pos shared]
      exact vouched.entries key old hit before known
    · next apart =>
      rw [if_neg apart]
      exact vouched.entries key old hit before known
  | postSentinel => exact ⟨vouched.entries, vouched.posted, vouched.working⟩
  | stop => exact ⟨vouched.entries, vouched.posted, by simp [resultsOf]⟩
  | getBatch =>
    refine ⟨vouched.entries, vouched.posted, fun answer member => ?_⟩
    simp only at member
    split at member
    · cases member
    · cases member
  | answerGroup working parallel =>
    refine ⟨vouched.entries, vouched.posted, fun answer member => ?_⟩
    rcases List.mem_append.mp member with earlier | new
    · apply vouched.working
      rw [working]
      exact earlier
    · apply given _ rfl
      rw [working]
      exact new
  | postResults working =>
    have all := vouched.working
    rw [working] at all
    refine ⟨vouched.entries, fun posted member => ?_, by simp [resultsOf]⟩
    simp only at member
    split at member
    · exact vouched.posted posted member
    · rcases List.mem_append.mp member with earlier | last
      · exact vouched.posted posted earlier
      · rw [List.mem_singleton.mp last]
        exact all

/-- A step keeps what holds of all queries in flight, if it holds of the query that the step makes. -/
theorem unanswered_step (asked : LookupQuery → Prop) (all : ∀ query ∈ unanswered m, asked query)
    {event : LookupEvent} (moved : AsyncLookupManager.step m event = some m')
    (made : ∀ key reqContext, event = .lookup key reqContext → m.lookupState.get? key = none →
      asked ⟨key, reqContext, m.queries⟩) : ∀ query ∈ unanswered m', asked query := by
  cases moves_of_step moved with
  | @lookup key reqContext =>
    rcases track_cases m.drainResults key reqContext with ⟨known, present, tracked⟩ | ⟨absent, tracked⟩
    · rw [AsyncLookupManager.lookup, tracked]
      exact all
    · rw [AsyncLookupManager.lookup, tracked]
      intro query member
      simp only [unanswered, ← List.append_assoc, List.mem_append] at member all
      rcases member with earlier | new
      · exact all query earlier
      · obtain rfl := List.mem_singleton.mp new
        apply made key reqContext rfl
        rw [get?_drainResults] at absent
        exact Option.map_eq_none_iff.mp absent
  | flushNothing => exact all
  | flush => simpa [unanswered, List.reduceOption_append] using all
  | drainResults => exact all
  | cleanup cleaned =>
    rw [(of_cleanup cleaned).1]
    exact all
  | postSentinel => simpa [unanswered, List.reduceOption_append] using all
  | stop idle queue => simpa [unanswered, idle, queue, pendingOf] using all
  | getBatch idle queue =>
    simp only [unanswered, idle, queue, pendingOf, List.reduceOption_cons_of_some, List.flatten_cons,
      List.append_assoc, List.nil_append] at all
    intro query member
    simp only [unanswered] at member
    apply all
    rcases List.mem_append.mp member with taken | later
    · split at taken
      · cases taken
      · exact List.mem_append_left _ taken
    · exact List.mem_append_right _ later
  | answerGroup working => simpa only [unanswered, working, pendingOf] using all
  | postResults => exact fun query member => all query (List.mem_append_right _ member)

/-- The queries of the group that the worker asks for next are in its batch. -/
theorem pending_of_group (inv : Inv m) {query : LookupQuery} (member : query ∈ m.worker.group) :
    query ∈ pendingOf m.worker := by
  cases working : m.worker with
  | waiting => simp [working, LookupWorker.group] at member
  | stopped => simp [working, LookupWorker.group] at member
  | processing pending groups rest results =>
    cases rest with
    | nil => simp [working, LookupWorker.group] at member
    | cons group rest =>
      rw [working] at member
      have listed : group ∈ batches pending := by
        rw [← (inv.answering _ _ _ _ working).grouped]
        exact List.mem_append_right _ (List.mem_cons_self ..)
      obtain ⟨-, reqId, rfl⟩ := mem_batches.mp listed
      exact List.mem_of_mem_filter member

/-- The results that the worker has collected are for keys of its batch. -/
theorem pending_of_result (inv : Inv m) {answer : LookupAnswer} (member : answer ∈ resultsOf m.worker) :
    answer.key ∈ (pendingOf m.worker).map LookupQuery.key := by
  cases working : m.worker with
  | waiting => simp [working, resultsOf] at member
  | stopped => simp [working, resultsOf] at member
  | processing pending groups rest results =>
    rw [working] at member
    obtain ⟨grouped, parts, rfl, each⟩ := inv.answering _ _ _ _ working
    have listed : (answer.key, answer.number) ∈
        parts.flatten.map fun answer => (answer.key, answer.number) := List.mem_map_of_mem member
    rw [map_of_answered each] at listed
    obtain ⟨query, asked, same⟩ := List.mem_map.mp listed
    have inBatch : query ∈ (batches pending).flatten := by
      rw [← grouped, List.flatten_append]
      exact List.mem_append_left _ asked
    exact List.mem_map.mpr ⟨query, (perm_batches pending).subset inBatch, (Prod.mk.inj same).1⟩

/-- While the worker asks for a group, only the answer to it moves the worker. -/
theorem worker_step {event : LookupEvent} (moved : AsyncLookupManager.step m event = some m')
    (busy : m.worker.group ≠ []) : m'.worker = m.worker ∨ ∃ outcome, event = .answerGroup outcome := by
  cases moves_of_step moved with
  | lookup => exact .inl (worker_lookup ..)
  | cleanup cleaned =>
    rw [(of_cleanup cleaned).1]
    exact .inl rfl
  | stop idle => simp [idle, LookupWorker.group] at busy
  | getBatch idle => simp [idle, LookupWorker.group] at busy
  | @answerGroup _ _ _ _ _ outcome => exact .inr ⟨outcome, rfl⟩
  | postResults working => simp [working, LookupWorker.group] at busy
  | _ => exact .inl rfl

end KVTiering.Soundness.AsyncLookup
