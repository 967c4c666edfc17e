import KVTiering.Machine.Run
import KVTiering.Model.AsyncLookup
import Mathlib.Data.List.ReduceOption

/-! # No lookup is lost

Dropping and making entries anew leaves queries in flight that nobody waits for, and several for one key. An
entry without a result always has one in flight: in the batch being collected, in a posted batch, with the
worker, or among the results posted back. Each batch that the worker has processed was answered query by
query, in one group for each request.
-/

namespace KVTiering.Soundness.AsyncLookup

open Model AsyncLookupManager

/-! ## Applying results -/

/-- The last of the results for a key. -/
def lastAnswer (results : List LookupAnswer) (key : OffloadKey) : Option LookupAnswer :=
  (results.filter fun answer => answer.key = key).getLast?

/-- An entry with the result of an answer, if there is one. -/
def updated (state : LookupState) : Option LookupAnswer → LookupState
  | none => state
  | some answer => { state with result := some answer.hit, answered := some answer.number }

theorem lastAnswer_eq_none_iff {results : List LookupAnswer} {key : OffloadKey} :
    lastAnswer results key = none ↔ key ∉ results.map LookupAnswer.key := by
  rw [lastAnswer, List.getLast?_eq_none_iff, List.filter_eq_nil_iff, List.mem_map]
  constructor
  · rintro absent ⟨answer, member, same⟩
    exact absent answer member (decide_eq_true same)
  · intro absent answer member same
    exact absent ⟨answer, member, of_decide_eq_true same⟩

theorem mem_of_lastAnswer {results : List LookupAnswer} {key : OffloadKey} {answer : LookupAnswer}
    (last : lastAnswer results key = some answer) : answer ∈ results ∧ answer.key = key := by
  have member := List.mem_of_getLast? last
  rw [List.mem_filter, decide_eq_true_eq] at member
  exact member

theorem get?_applyResult (lookupState : Dict OffloadKey LookupState) (answer : LookupAnswer) (key : OffloadKey) :
    (applyResult lookupState answer).get? key =
      (lookupState.get? key).map fun state => if key = answer.key then updated state (some answer) else state := by
  unfold applyResult
  cases found : lookupState.get? answer.key with
  | none =>
    rcases eq_or_ne key answer.key with rfl | differ
    · simp [found]
    · simp [differ]
  | some state =>
    simp only [Dict.get?_set]
    rcases eq_or_ne key answer.key with rfl | differ
    · simp [found, updated]
    · simp [differ]

/-- Of several results for one key the last one stays. -/
theorem get?_applyResults (lookupState : Dict OffloadKey LookupState) (results : List LookupAnswer)
    (key : OffloadKey) : (results.foldl applyResult lookupState).get? key =
      (lookupState.get? key).map fun state => updated state (lastAnswer results key) := by
  induction results using List.reverseRecOn with
  | nil => simp [lastAnswer, updated]
  | append_singleton before answer ih =>
    rw [List.foldl_append, List.foldl_cons, List.foldl_nil, get?_applyResult, ih, Option.map_map]
    congr 1
    funext state
    rw [Function.comp_apply, lastAnswer, lastAnswer, List.filter_append]
    rcases eq_or_ne key answer.key with rfl | differ
    · cases before.filter (fun other => other.key = answer.key) |>.getLast? <;> simp [updated]
    · simp [differ, Ne.symm differ]

theorem get?_drainResults (m : AsyncLookupManager) (key : OffloadKey) :
    m.drainResults.lookupState.get? key =
      (m.lookupState.get? key).map fun state => updated state (lastAnswer m.pendingResults.flatten key) :=
  get?_applyResults ..

@[simp] theorem requestIds_updated (state : LookupState) (answer : Option LookupAnswer) :
    (updated state answer).requestIds = state.requestIds := by
  cases answer <;> rfl

/-! ## Keys and requests -/

/-- The keys that a request has looked up. -/
def keysOf (m : AsyncLookupManager) (reqId : String) : Finset OffloadKey := (m.reqKeys.get? reqId).getD ∅

/-- Each entry has the requests that look for its key, and there is one. -/
structure Booked (m : AsyncLookupManager) : Prop where
  listed : ∀ reqId, ∀ key ∈ keysOf m reqId, ∃ state, m.lookupState.get? key = some state ∧ reqId ∈ state.requestIds
  waiting : ∀ key state, m.lookupState.get? key = some state →
    state.requestIds ≠ ∅ ∧ ∀ reqId ∈ state.requestIds, key ∈ keysOf m reqId

theorem Booked.congr {m m' : AsyncLookupManager} (booked : Booked m) (lookupState : m'.lookupState = m.lookupState)
    (reqKeys : m'.reqKeys = m.reqKeys) : Booked m' := by
  obtain ⟨listed, waiting⟩ := booked
  constructor
  · simpa only [keysOf, lookupState, reqKeys] using listed
  · simpa only [keysOf, lookupState, reqKeys] using waiting

theorem Booked.drainResults {m : AsyncLookupManager} (booked : Booked m) : Booked m.drainResults := by
  constructor
  · intro reqId key member
    obtain ⟨state, found, waits⟩ := booked.listed reqId key member
    exact ⟨_, by rw [get?_drainResults, found]; rfl, by rwa [requestIds_updated]⟩
  · intro key state found
    rw [get?_drainResults] at found
    obtain ⟨old, before, rfl⟩ := Option.map_eq_some_iff.mp found
    rw [requestIds_updated]
    exact booked.waiting key old before

/-- What a lookup does to the entries: those of other keys are drained only. -/
theorem get?_lookup (m : AsyncLookupManager) (key other : OffloadKey) (reqContext : ReqContext) :
    (m.lookup key reqContext).2.lookupState.get? other =
      if other = key then some { (m.drainResults.track key reqContext).1 with
        requestIds := insert reqContext.reqId (m.drainResults.track key reqContext).1.requestIds }
      else m.drainResults.lookupState.get? other := by
  have kept : (m.drainResults.track key reqContext).2.lookupState = m.drainResults.lookupState := by
    unfold track
    split <;> rfl
  rw [lookup, Dict.get?_set, kept]

theorem keysOf_lookup (m : AsyncLookupManager) (key : OffloadKey) (reqContext : ReqContext) (reqId : String) :
    keysOf (m.lookup key reqContext).2 reqId =
      if reqId = reqContext.reqId then insert key (keysOf m reqId) else keysOf m reqId := by
  have kept : (m.drainResults.track key reqContext).2.reqKeys = m.reqKeys := by
    unfold track
    split <;> rfl
  rw [keysOf, lookup, Dict.get?_set, kept]
  split
  · next same => rw [same, Option.getD_some, keysOf]
  · rfl

/-- The entry that a lookup finds or makes. -/
theorem track_cases (m : AsyncLookupManager) (key : OffloadKey) (reqContext : ReqContext) :
    (∃ state, m.lookupState.get? key = some state ∧ m.track key reqContext = (state, m)) ∨
      m.lookupState.get? key = none ∧ m.track key reqContext = (⟨none, ∅, none⟩, { m with
        lookupBatch := m.lookupBatch ++ [⟨key, reqContext, m.queries⟩]
        queries := m.queries + 1 }) := by
  unfold track
  cases found : m.lookupState.get? key with
  | some state => exact .inl ⟨state, rfl, rfl⟩
  | none => exact .inr ⟨rfl, rfl⟩

theorem Booked.lookup {m : AsyncLookupManager} (booked : Booked m) (key : OffloadKey) (reqContext : ReqContext) :
    Booked (m.lookup key reqContext).2 := by
  have drained := booked.drainResults
  have others : ∀ reqId ∈ (m.drainResults.track key reqContext).1.requestIds, key ∈ keysOf m reqId := by
    intro reqId member
    rcases track_cases m.drainResults key reqContext with ⟨state, found, tracked⟩ | ⟨-, tracked⟩
    · rw [tracked] at member
      exact (drained.waiting key state found).2 reqId member
    · simp [tracked] at member
  constructor
  · intro reqId other member
    rw [get?_lookup]
    rw [keysOf_lookup] at member
    rcases eq_or_ne other key with rfl | differ
    · rw [if_pos rfl]
      refine ⟨_, rfl, Finset.mem_insert.mpr ?_⟩
      split at member
      · next same => exact .inl same
      · right
        obtain ⟨state, found, waits⟩ := drained.listed reqId other member
        rcases track_cases m.drainResults other reqContext with ⟨same, again, tracked⟩ | ⟨absent, -⟩
        · obtain rfl := Option.some.inj (found.symm.trans again)
          rwa [tracked]
        · cases found.symm.trans absent
    · rw [if_neg differ]
      split at member
      · rw [Finset.mem_insert, or_iff_right differ] at member
        exact drained.listed reqId other member
      · exact drained.listed reqId other member
  · intro other state found
    rw [get?_lookup] at found
    split at found
    · next same =>
      obtain rfl := Option.some.inj found
      refine ⟨Finset.insert_ne_empty _ _, fun reqId member => ?_⟩
      rw [keysOf_lookup, same]
      rcases Finset.mem_insert.mp member with rfl | old
      · rw [if_pos rfl]
        exact Finset.mem_insert_self _ _
      · split
        · exact Finset.mem_insert_of_mem (others reqId old)
        · exact others reqId old
    · obtain ⟨some, listed⟩ := drained.waiting other state found
      refine ⟨some, fun reqId member => ?_⟩
      have before := listed reqId member
      rw [keysOf_lookup]
      split
      · exact Finset.mem_insert_of_mem before
      · exact before

/-- What a cleanup leaves of an entry. -/
theorem of_cleanup {m m' : AsyncLookupManager} {reqId : String} (cleaned : m.cleanup reqId = .ok m') :
    m' = { m with lookupState := m'.lookupState, reqKeys := m.reqKeys.erase reqId } ∧
      ∀ key, m'.lookupState.get? key = ((m.lookupState.get? key).map fun state =>
        if key ∈ keysOf m reqId then { state with requestIds := state.requestIds.erase reqId } else state).filter
          fun state => key ∉ keysOf m reqId ∨ state.requestIds ≠ ∅ := by
  unfold AsyncLookupManager.cleanup at cleaned
  dsimp only at cleaned
  split at cleaned
  · cases cleaned
  · obtain rfl := Except.ok.inj cleaned
    refine ⟨rfl, fun key => ?_⟩
    rw [Dict.get?_filter, Dict.get?_mapValues]
    rfl

/-- A cleanup finds every entry that it visits. -/
theorem cleanup_ok {m : AsyncLookupManager} (booked : Booked m) (reqId : String) : ∃ m', m.cleanup reqId = .ok m' := by
  have present : ¬∃ key ∈ (m.reqKeys.get? reqId).getD ∅, m.lookupState.get? key = none := by
    rintro ⟨key, member, absent⟩
    obtain ⟨state, found, -⟩ := booked.listed reqId key member
    cases found.symm.trans absent
  exact ⟨_, if_neg present⟩

theorem keysOf_cleaned {m m' : AsyncLookupManager} {reqId : String} (cleaned : m'.reqKeys = m.reqKeys.erase reqId)
    (other : String) : keysOf m' other = if other = reqId then ∅ else keysOf m other := by
  rw [keysOf, cleaned, Dict.get?_erase]
  split <;> rfl

theorem Booked.cleanup {m m' : AsyncLookupManager} (booked : Booked m) {reqId : String}
    (cleaned : m.cleanup reqId = .ok m') : Booked m' := by
  obtain ⟨shape, entries⟩ := of_cleanup cleaned
  have keys := keysOf_cleaned (congrArg reqKeys shape)
  constructor
  · intro other key member
    rw [keys] at member
    split at member
    · cases member
    · next differ =>
      obtain ⟨state, found, waits⟩ := booked.listed other key member
      have stays : other ∈ state.requestIds.erase reqId := Finset.mem_erase.mpr ⟨differ, waits⟩
      rw [entries, found, Option.map_some]
      split
      · next shared =>
        refine ⟨{ state with requestIds := state.requestIds.erase reqId }, ?_, stays⟩
        simp [Finset.ne_empty_of_mem stays]
      · next apart =>
        refine ⟨state, ?_, waits⟩
        simp [apart]
  · intro key state found
    rw [entries, Option.filter_eq_some_iff, Option.map_eq_some_iff] at found
    obtain ⟨⟨old, before, rfl⟩, kept⟩ := found
    obtain ⟨some, listed⟩ := booked.waiting key old before
    rw [decide_eq_true_eq] at kept
    rcases Classical.em (key ∈ keysOf m reqId) with shared | apart
    · rw [if_pos shared] at kept ⊢
      refine ⟨kept.resolve_left (not_not.mpr shared), fun other member => ?_⟩
      obtain ⟨differ, waits⟩ := Finset.mem_erase.mp member
      rw [keys, if_neg differ]
      exact listed other waits
    · rw [if_neg apart]
      refine ⟨some, fun other member => ?_⟩
      have differ : other ≠ reqId := by
        rintro rfl
        exact apart (listed other member)
      rw [keys, if_neg differ]
      exact listed other member

/-! ## Batches -/

/-- The answers of a request's group: the booleans that the lookup returned, or false for all if it raised. -/
def GroupAnswered (group : List LookupQuery) (outcome : Option (List Bool)) (answers : List LookupAnswer) : Prop :=
  answers.map (fun answer => (answer.key, answer.number)) = group.map (fun query => (query.key, query.number)) ∧
    answers.map LookupAnswer.hit = outcome.getD (group.map fun _ => false)

theorem groupAnswered_answers {group : List LookupQuery} {outcome : Option (List Bool)}
    (parallel : ∀ hits ∈ outcome, hits.length = group.length) :
    GroupAnswered group outcome (answers group outcome) := by
  have same : (outcome.getD (group.map fun _ => false)).length = group.length := by
    cases outcome with
    | none => exact List.length_map _
    | some hits => exact parallel hits rfl
  constructor
  · have queries := congrArg (List.map fun query => (query.key, query.number)) (List.map_fst_zip same.ge)
    rw [List.map_map] at queries
    rwa [answers, List.map_map]
  · rw [answers, List.map_map]
    exact List.map_snd_zip same.le

/-- Each query of a batch is in one of its groups. -/
theorem perm_batches (pending : List LookupQuery) : (batches pending).flatten.Perm pending := Dict.perm_groupOn ..

theorem mem_batches {pending group : List LookupQuery} : group ∈ batches pending ↔
    group ≠ [] ∧ ∃ reqId, group = pending.filter fun query => query.reqContext.reqId = reqId :=
  Dict.mem_values_groupOn

/-- A batch whose first groups have been answered. -/
structure Answering (pending : List LookupQuery) (groups : List (List LookupQuery × Option (List Bool)))
    (rest : List (List LookupQuery)) (results : List LookupAnswer) : Prop where
  grouped : groups.map Prod.fst ++ rest = batches pending
  answered : ∃ parts, results = parts.flatten ∧
    List.Forall₂ (fun group part => GroupAnswered group.1 group.2 part) groups parts

theorem Answering.snoc {pending group : List LookupQuery} {groups : List (List LookupQuery × Option (List Bool))}
    {rest : List (List LookupQuery)} {results : List LookupAnswer} {outcome : Option (List Bool)}
    (before : Answering pending groups (group :: rest) results)
    (parallel : ∀ hits ∈ outcome, hits.length = group.length) :
    Answering pending (groups ++ [(group, outcome)]) rest (results ++ answers group outcome) := by
  obtain ⟨grouped, parts, rfl, each⟩ := before
  constructor
  · simpa using grouped
  · refine ⟨parts ++ [answers group outcome], by simp, ?_⟩
    exact List.rel_append each (.cons (groupAnswered_answers parallel) .nil)

/-- A batch processed: each request's queries are one group, and each query of a group has one result, the
boolean that the lookup returned for its key there, or false if that lookup raised. -/
structure Processed (record : LookupRecord) : Prop where
  distinct : (record.pending.map LookupQuery.number).Nodup
  requests : ∀ group, group ∈ record.groups.map Prod.fst ↔
    group ≠ [] ∧ ∃ reqId, group = record.pending.filter fun query => query.reqContext.reqId = reqId
  whole : (record.groups.map Prod.fst).flatten.Perm record.pending
  answered : ∃ parts, record.results = parts.flatten ∧
    List.Forall₂ (fun group part => GroupAnswered group.1 group.2 part) record.groups parts
  once : (record.results.map fun answer => (answer.key, answer.number)).Perm
    (record.pending.map fun query => (query.key, query.number))

theorem map_of_answered {groups : List (List LookupQuery × Option (List Bool))} {parts : List (List LookupAnswer)}
    (each : List.Forall₂ (fun group part => GroupAnswered group.1 group.2 part) groups parts) :
    parts.flatten.map (fun answer => (answer.key, answer.number)) =
      (groups.map Prod.fst).flatten.map fun query => (query.key, query.number) := by
  induction each with
  | nil => rfl
  | cons first _ ih =>
    rw [List.map_cons, List.flatten_cons, List.flatten_cons, List.map_append, List.map_append, first.1, ih]

theorem Answering.processed {pending : List LookupQuery} {groups : List (List LookupQuery × Option (List Bool))}
    {results : List LookupAnswer} (done : Answering pending groups [] results)
    (distinct : (pending.map LookupQuery.number).Nodup) : Processed ⟨pending, groups, results⟩ := by
  obtain ⟨grouped, parts, rfl, each⟩ := done
  rw [List.append_nil] at grouped
  have whole : (groups.map Prod.fst).flatten.Perm pending := by
    rw [grouped]
    exact perm_batches pending
  refine ⟨distinct, fun group => ?_, whole, ⟨parts, rfl, each⟩, ?_⟩
  · rw [grouped]
    exact mem_batches
  · rw [map_of_answered each]
    exact whole.map _

/-! ## Queries in flight -/

/-- The batch that the worker is processing. -/
def pendingOf : LookupWorker → List LookupQuery
  | .processing pending _ _ _ => pending
  | _ => []

/-- A key with a query or a result on its way. -/
def Underway (m : AsyncLookupManager) (key : OffloadKey) : Prop :=
  key ∈ m.lookupBatch.map LookupQuery.key ∨
    (∃ batch, some batch ∈ m.lookupQueue ∧ key ∈ batch.map LookupQuery.key) ∨
    key ∈ (pendingOf m.worker).map LookupQuery.key ∨
    ∃ results ∈ m.pendingResults, key ∈ results.map LookupAnswer.key

/-- Every key whose result is not known yet is on its way. -/
def Awaited (m : AsyncLookupManager) : Prop :=
  ∀ key state, m.lookupState.get? key = some state → state.result = none → Underway m key

/-- The queries that no result has been posted for. -/
def unanswered (m : AsyncLookupManager) : List LookupQuery :=
  pendingOf m.worker ++ (m.lookupQueue.reduceOption.flatten ++ m.lookupBatch)

/-- The queries in flight have numbers of their own. -/
def Numbered (m : AsyncLookupManager) : Prop :=
  ((unanswered m).map LookupQuery.number).Nodup ∧ ∀ query ∈ unanswered m, query.number < m.queries

theorem Numbered.of_sublist {m m' : AsyncLookupManager} (numbered : Numbered m)
    (fewer : (unanswered m').Sublist (unanswered m)) (queries : m'.queries = m.queries) : Numbered m' := by
  constructor
  · exact numbered.1.sublist (fewer.map _)
  · intro query member
    rw [queries]
    exact numbered.2 query (fewer.subset member)

theorem Numbered.congr {m m' : AsyncLookupManager} (numbered : Numbered m) (same : unanswered m' = unanswered m)
    (queries : m'.queries = m.queries) : Numbered m' :=
  numbered.of_sublist (same ▸ .refl _) queries

theorem Numbered.ask {m m' : AsyncLookupManager} (numbered : Numbered m) (query : LookupQuery)
    (asked : unanswered m' = unanswered m ++ [query]) (number : query.number = m.queries)
    (queries : m'.queries = m.queries + 1) : Numbered m' := by
  obtain ⟨distinct, below⟩ := numbered
  constructor
  · rw [asked, List.map_append, List.map_singleton, number]
    refine List.nodup_append'.mpr ⟨distinct, List.nodup_singleton _, ?_⟩
    intro taken member last
    obtain ⟨other, earlier, rfl⟩ := List.mem_map.mp member
    exact absurd (List.mem_singleton.mp last) (below other earlier).ne
  · intro other member
    rw [asked, List.mem_append, List.mem_singleton] at member
    rw [queries]
    rcases member with earlier | rfl
    · exact (below other earlier).trans (Nat.lt_succ_self _)
    · rw [number]
      exact Nat.lt_succ_self _

/-- What holds between any two steps of the two threads. -/
structure Inv (m : AsyncLookupManager) : Prop where
  booked : Booked m
  awaited : Awaited m
  numbered : Numbered m
  answering : ∀ pending groups rest results, m.worker = .processing pending groups rest results →
    Answering pending groups rest results
  processed : ∀ record ∈ m.records, Processed record

theorem init_inv : Inv init := by
  constructor
  · constructor
    · intro reqId key member
      simp [keysOf, init] at member
    · intro key state found
      cases found
  · intro key state found
    cases found
  · exact ⟨List.nodup_nil, by simp [unanswered, init, pendingOf]⟩
  · intro pending groups rest results working
    cases working
  · intro record member
    cases member

theorem awaited_drainResults {m : AsyncLookupManager} (awaited : Awaited m) {key : OffloadKey} {state : LookupState}
    (found : m.drainResults.lookupState.get? key = some state) (unknown : state.result = none) :
    key ∈ m.lookupBatch.map LookupQuery.key ∨
      (∃ batch, some batch ∈ m.lookupQueue ∧ key ∈ batch.map LookupQuery.key) ∨
      key ∈ (pendingOf m.worker).map LookupQuery.key := by
  rw [get?_drainResults] at found
  obtain ⟨old, before, rfl⟩ := Option.map_eq_some_iff.mp found
  cases last : lastAnswer m.pendingResults.flatten key with
  | some answer => simp [last, updated] at unknown
  | none =>
    rw [last] at unknown
    rcases awaited key old before unknown with batch | queue | worker | ⟨results, posted, member⟩
    · exact .inl batch
    · exact .inr (.inl queue)
    · exact .inr (.inr worker)
    · rw [lastAnswer_eq_none_iff] at last
      obtain ⟨answer, listed, rfl⟩ := List.mem_map.mp member
      exact absurd (List.mem_map_of_mem (List.mem_flatten.mpr ⟨results, posted, listed⟩)) last

theorem Inv.drainResults {m : AsyncLookupManager} (inv : Inv m) : Inv m.drainResults := by
  constructor
  · exact inv.booked.drainResults
  · intro key state found unknown
    rcases awaited_drainResults inv.awaited found unknown with batch | queue | worker
    · exact .inl batch
    · exact .inr (.inl queue)
    · exact .inr (.inr (.inl worker))
  · exact inv.numbered
  · exact inv.answering
  · exact inv.processed

theorem Inv.lookup {m : AsyncLookupManager} (inv : Inv m) (key : OffloadKey) (reqContext : ReqContext) :
    Inv (m.lookup key reqContext).2 := by
  have booked := inv.booked.lookup key reqContext
  rcases track_cases m.drainResults key reqContext with ⟨known, present, tracked⟩ | ⟨absent, tracked⟩
  all_goals simp only [AsyncLookupManager.lookup, tracked] at booked ⊢
  · constructor
    · exact booked
    · intro other state found unknown
      simp only [Dict.get?_set] at found
      refine inv.drainResults.awaited other { state with requestIds := ?_ } ?_ unknown
      · exact if other = key then known.requestIds else state.requestIds
      · split at found
        · next same =>
          obtain rfl := Option.some.inj found
          simp [same, present]
        · next differ => simp [differ, found]
    · exact inv.numbered
    · exact inv.answering
    · exact inv.processed
  · constructor
    · exact booked
    · intro other state found unknown
      simp only [Dict.get?_set] at found
      split at found
      · next same => exact .inl (by simp [same])
      · rcases inv.drainResults.awaited other state found unknown with batch | rest
        · exact .inl (by simpa using .inl (by simpa using batch))
        · exact .inr rest
    · refine inv.numbered.ask ⟨key, reqContext, m.queries⟩ ?_ rfl rfl
      simp only [unanswered, List.append_assoc]
      rfl
    · exact inv.answering
    · exact inv.processed

theorem Inv.flush {m : AsyncLookupManager} (inv : Inv m) :
    Inv { m with lookupQueue := m.lookupQueue ++ [some m.lookupBatch], lookupBatch := [] } := by
  constructor
  · exact inv.booked.congr rfl rfl
  · intro key state found unknown
    rcases inv.awaited key state found unknown with batch | ⟨batch, posted, member⟩ | rest
    · exact .inr (.inl ⟨m.lookupBatch, by simp, batch⟩)
    · exact .inr (.inl ⟨batch, List.mem_append_left _ posted, member⟩)
    · exact .inr (.inr rest)
  · refine inv.numbered.congr ?_ rfl
    simp [unanswered, List.reduceOption_append]
  · exact inv.answering
  · exact inv.processed

theorem Inv.cleanup {m m' : AsyncLookupManager} (inv : Inv m) {reqId : String}
    (cleaned : m.cleanup reqId = .ok m') : Inv m' := by
  obtain ⟨shape, entries⟩ := of_cleanup cleaned
  have booked := inv.booked.cleanup cleaned
  rw [shape] at booked ⊢
  constructor
  · exact booked
  · intro key state found unknown
    rw [entries, Option.filter_eq_some_iff, Option.map_eq_some_iff] at found
    obtain ⟨⟨old, before, rfl⟩, -⟩ := found
    apply inv.awaited key old before
    split at unknown
    · exact unknown
    · exact unknown
  · exact inv.numbered
  · exact inv.answering
  · exact inv.processed

theorem Inv.postSentinel {m : AsyncLookupManager} (inv : Inv m) :
    Inv { m with lookupQueue := m.lookupQueue ++ [none] } := by
  constructor
  · exact inv.booked.congr rfl rfl
  · intro key state found unknown
    rcases inv.awaited key state found unknown with batch | ⟨batch, posted, member⟩ | rest
    · exact .inl batch
    · exact .inr (.inl ⟨batch, List.mem_append_left _ posted, member⟩)
    · exact .inr (.inr rest)
  · refine inv.numbered.congr ?_ rfl
    simp [unanswered, List.reduceOption_append]
  · exact inv.answering
  · exact inv.processed

theorem Inv.stop {m : AsyncLookupManager} (inv : Inv m) {rest : List (Option (List LookupQuery))}
    (idle : m.worker = .waiting) (queue : m.lookupQueue = none :: rest) :
    Inv { m with lookupQueue := rest, worker := .stopped } := by
  constructor
  · exact inv.booked.congr rfl rfl
  · intro key state found unknown
    have before := inv.awaited key state found unknown
    simpa [Underway, idle, queue, pendingOf] using before
  · refine inv.numbered.congr ?_ rfl
    simp [unanswered, idle, queue, pendingOf]
  · intro pending groups rest results working
    cases working
  · exact inv.processed

theorem Inv.getBatch {m : AsyncLookupManager} (inv : Inv m) {pending : List LookupQuery}
    {rest : List (Option (List LookupQuery))} (idle : m.worker = .waiting)
    (queue : m.lookupQueue = some pending :: rest) :
    Inv { m with
      lookupQueue := rest
      worker := if batches pending = [] then .waiting else .processing pending [] (batches pending) [] } := by
  have taken : batches pending = [] → pending = [] := by
    intro none
    have all := perm_batches pending
    rw [none] at all
    exact all.nil_eq.symm
  have inside : pendingOf (if batches pending = [] then .waiting else .processing pending [] (batches pending) []) =
      pending := by
    split
    · next none => exact (taken none).symm
    · rfl
  constructor
  · exact inv.booked.congr rfl rfl
  · intro key state found unknown
    have before := inv.awaited key state found unknown
    simp only [Underway, idle, queue, pendingOf] at before
    simp only [Underway, inside]
    rcases before with batch | ⟨batch, posted, member⟩ | worker | results
    · exact .inl batch
    · rcases List.mem_cons.mp posted with same | later
      · obtain rfl := Option.some.inj same
        exact .inr (.inr (.inl member))
      · exact .inr (.inl ⟨batch, later, member⟩)
    · cases worker
    · exact .inr (.inr (.inr results))
  · refine inv.numbered.congr ?_ rfl
    simp only [unanswered, inside, idle, queue, List.reduceOption_cons_of_some, List.flatten_cons, List.append_assoc]
    rfl
  · intro processing groups remaining results working
    simp only at working
    split at working
    · cases working
    · cases working
      exact ⟨rfl, [], rfl, .nil⟩
  · exact inv.processed

theorem Inv.answerGroup {m : AsyncLookupManager} (inv : Inv m) {pending group : List LookupQuery}
    {groups : List (List LookupQuery × Option (List Bool))} {rest : List (List LookupQuery)}
    {results : List LookupAnswer} {outcome : Option (List Bool)}
    (working : m.worker = .processing pending groups (group :: rest) results)
    (parallel : ∀ hits ∈ outcome, hits.length = group.length) :
    Inv { m with
      worker := .processing pending (groups ++ [(group, outcome)]) rest (results ++ answers group outcome) } := by
  constructor
  · exact inv.booked.congr rfl rfl
  · intro key state found unknown
    have before := inv.awaited key state found unknown
    simpa only [Underway, working, pendingOf] using before
  · refine inv.numbered.congr ?_ rfl
    simp only [unanswered, working, pendingOf]
  · intro _ _ _ _ same
    cases same
    exact (inv.answering _ _ _ _ working).snoc parallel
  · exact inv.processed

theorem Inv.postResults {m : AsyncLookupManager} (inv : Inv m) {pending : List LookupQuery}
    {groups : List (List LookupQuery × Option (List Bool))} {results : List LookupAnswer}
    (working : m.worker = .processing pending groups [] results) :
    Inv { m with
      pendingResults := if results = [] then m.pendingResults else m.pendingResults ++ [results]
      worker := .waiting
      records := m.records ++ [⟨pending, groups, results⟩] } := by
  have distinct : (pending.map LookupQuery.number).Nodup := by
    have numbers := inv.numbered.1
    rw [unanswered, working, List.map_append] at numbers
    exact numbers.of_append_left
  have record := (inv.answering _ _ _ _ working).processed distinct
  constructor
  · exact inv.booked.congr rfl rfl
  · intro key state found unknown
    have before := inv.awaited key state found unknown
    simp only [Underway, working, pendingOf] at before ⊢
    rcases before with batch | queue | worker | ⟨earlier, listed, member⟩
    · exact .inl batch
    · exact .inr (.inl queue)
    · have answered : key ∈ results.map LookupAnswer.key := by
        have keys := (record.once.map Prod.fst).mem_iff (a := key)
        simpa using keys.mpr (by simpa using worker)
      refine .inr (.inr (.inr ⟨results, ?_, answered⟩))
      rw [if_neg (by rintro rfl; cases answered)]
      simp
    · refine .inr (.inr (.inr ⟨earlier, ?_, member⟩))
      split
      · exact listed
      · exact List.mem_append_left _ listed
  · refine inv.numbered.of_sublist ?_ rfl
    simp only [unanswered, working, pendingOf]
    exact List.sublist_append_right _ _
  · intro _ _ _ _ same
    cases same
  · intro other member
    rcases List.mem_append.mp member with earlier | last
    · exact inv.processed other earlier
    · obtain rfl := List.mem_singleton.mp last
      exact record

/-- Every step keeps the invariant. -/
theorem Inv.step {m m' : AsyncLookupManager} (inv : Inv m) {event : LookupEvent}
    (moved : AsyncLookupManager.step m event = some m') : Inv m' := by
  cases moves_of_step moved with
  | lookup => exact inv.lookup _ _
  | flushNothing => exact inv
  | flush => exact inv.flush
  | drainResults => exact inv.drainResults
  | cleanup cleaned => exact inv.cleanup cleaned
  | postSentinel => exact inv.postSentinel
  | stop idle queue => exact inv.stop idle queue
  | getBatch idle queue => exact inv.getBatch idle queue
  | answerGroup working parallel => exact inv.answerGroup working parallel
  | postResults working => exact inv.postResults working

theorem run_inv {events : List LookupEvent} {m : AsyncLookupManager}
    (run : Run (Steps AsyncLookupManager.step) init events m) : Inv m :=
  run.preserves Inv init_inv fun _ _ _ _ inv moved => inv.step moved

end KVTiering.Soundness.AsyncLookup
