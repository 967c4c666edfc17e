import KVTiering.Soundness.FileSystemTier

/-! # How old an answer may be

The requests that wait for a key share one entry and its result, and an answer still in flight goes to whatever
entry the key has when it arrives. So an answer can be older than the request that is told it. It is never older
than the lookup that made the answered query: between that call and the answer, a key that hits had a row or a
file, and a key that misses was seen first without a row and then without a file.
-/

namespace KVTiering.Soundness

open Model

namespace FileSystemTier

open Model.FileSystemTier

section History

variable (fileName : OffloadKey → String) (start : FileSystemTier)

/-- The key has a durable copy. -/
def Durable (tier : FileSystemTier) (key : OffloadKey) : Prop := HasRow tier key ∨ fileName key ∈ tier.files

instance (tier : FileSystemTier) (key : OffloadKey) : Decidable (Durable fileName tier key) :=
  inferInstanceAs (Decidable (_ ∨ _))

/-- One of the calls in the history looked the key up without an entry for it, and so made the query. -/
def Asked (past : List TierEvent) (key : OffloadKey) (number : ℕ) : Prop :=
  ∃ before reqContext later tier, past = before ++ .lookup key reqContext :: later ∧
    Run (Steps (step fileName)) start before tier ∧ tier.lookupManager.queries = number ∧
    tier.lookupManager.lookupState.get? key = none

/-- The tier went through the state after the query was made. -/
structure Moment (events : List TierEvent) (key : OffloadKey) (number : ℕ) (past : List TierEvent)
    (tier : FileSystemTier) : Prop where
  earlier : past <+: events
  reached : Run (Steps (step fileName)) start past tier
  asked : Asked fileName start past key number

/-- After the query was made the key had no row, and then or later no file. -/
def SeenMissing (events : List TierEvent) (key : OffloadKey) (number : ℕ) : Prop :=
  ∃ first tier last tier', Moment fileName start events key number first tier ∧ ¬HasRow tier key ∧
    first <+: last ∧ Moment fileName start events key number last tier' ∧ fileName key ∉ tier'.files

/-- What an answer says of the key was true after the query was made. -/
def Justified (events : List TierEvent) (key : OffloadKey) (hit : Bool) (number : ℕ) : Prop :=
  if hit then ∃ past tier, Moment fileName start events key number past tier ∧ Durable fileName tier key
  else SeenMissing fileName start events key number

variable {fileName start} {events more : List TierEvent} {key : OffloadKey} {number : ℕ}

theorem Asked.mono (asked : Asked fileName start events key number) (grows : events <+: more) :
    Asked fileName start more key number := by
  obtain ⟨before, reqContext, later, tier, rfl, reached, made, absent⟩ := asked
  obtain ⟨rest, rfl⟩ := grows
  exact ⟨before, reqContext, later ++ rest, tier, by simp, reached, made, absent⟩

theorem Moment.mono {past : List TierEvent} {tier : FileSystemTier}
    (moment : Moment fileName start events key number past tier) (grows : events <+: more) :
    Moment fileName start more key number past tier :=
  ⟨moment.earlier.trans grows, moment.reached, moment.asked⟩

theorem Justified.mono {hit : Bool} (justified : Justified fileName start events key hit number)
    (grows : events <+: more) : Justified fileName start more key hit number := by
  cases hit with
  | true =>
    obtain ⟨past, tier, moment, durable⟩ := justified
    exact ⟨past, tier, moment.mono grows, durable⟩
  | false =>
    obtain ⟨first, tier, last, tier', moment, noRow, order, later, noFile⟩ := justified
    exact ⟨first, tier, last, tier', moment.mono grows, noRow, order, later.mono grows, noFile⟩

/-- What holds of the answers and of a call of `batch_lookup` while no call raises. -/
structure Fresh (fileName : OffloadKey → String) (start : FileSystemTier) (events : List TierEvent)
    (tier : FileSystemTier) : Prop where
  vouched : AsyncLookup.Vouched (Justified fileName start events) tier.lookupManager
  asked : ∀ query ∈ AsyncLookup.unanswered tier.lookupManager, Asked fileName start events query.key query.number
  missing : ∀ frame ∈ tier.batchLookup, ∀ item ∈ frame.missing, ∃ query, (group tier)[item.2]? = some query ∧
    query.key = item.1 ∧ ∃ past before, Moment fileName start events query.key query.number past before ∧
      ¬HasRow before query.key
  hits : ∀ frame ∈ tier.batchLookup, ∀ index query hit, (group tier)[index]? = some query →
    frame.segmentHits[index]? = some hit → (query.key, index) ∈ frame.missing ∨
      Justified fileName start events query.key hit query.number

variable {tier tier' : FileSystemTier} {event : TierEvent}

/-- A query of the group sees the state that its call of `batch_lookup` reads. -/
theorem Fresh.now (fresh : Fresh fileName start events tier) (inv : Inv tier)
    (run : Run (Steps (step fileName)) start events tier) {index : ℕ} {query : LookupQuery}
    (listed : (group tier)[index]? = some query) (event : TierEvent) :
    Moment fileName start (events ++ [event]) query.key query.number events tier := by
  refine ⟨List.prefix_append _ _, run, fresh.asked query ?_⟩
  exact List.mem_append_left _ (AsyncLookup.pending_of_group inv.lookups (List.mem_of_getElem? listed))

/-- The answers of a call that does not raise are justified. -/
theorem Fresh.answers (fresh : Fresh fileName start events tier) {segmentHits : List Bool}
    (asked : tier.batchLookup = some ⟨segmentHits, []⟩) {answer : LookupAnswer}
    (member : answer ∈ AsyncLookupManager.answers (group tier) (some segmentHits)) :
    Justified fileName start events answer.key answer.hit answer.number := by
  obtain ⟨index, query, hit, query_at, hit_at, rfl⟩ := AsyncLookup.mem_answers member
  rcases fresh.hits _ asked index query hit query_at hit_at with left | justified
  · cases left
  · exact justified

theorem Fresh.moves (fresh : Fresh fileName start events tier) (inv : Inv tier)
    (run : Run (Steps (step fileName)) start events tier) (moved : step fileName tier event = some tier')
    (quiet : event ≠ .raiseBatchLookup) : Fresh fileName start (events ++ [event]) tier' := by
  have moves := step_moves inv moved
  have grows : events <+: events ++ [event] := List.prefix_append _ _
  have older := fresh.vouched.mono fun key hit number justified => Justified.mono justified grows
  constructor
  · rcases moves.manager_step inv with ⟨call, stepped, origin⟩ | same
    · apply older.step stepped
      intro outcome answering answer member
      rcases origin with ⟨-, other⟩ | ⟨segmentHits, asked, answered⟩ | ⟨raised, -⟩
      · exact absurd answering (other outcome)
      · obtain rfl := LookupEvent.answerGroup.inj (answering.symm.trans answered)
        exact Justified.mono (fresh.answers asked member) grows
      · exact absurd raised quiet
    · rw [same]
      exact older
  · have askedBefore : ∀ query ∈ AsyncLookup.unanswered tier.lookupManager,
        Asked fileName start (events ++ [event]) query.key query.number :=
      fun query member => (fresh.asked query member).mono grows
    rcases moves.manager_step inv with ⟨call, stepped, origin⟩ | same
    · refine AsyncLookup.unanswered_step
        (fun query => Asked fileName start (events ++ [event]) query.key query.number) askedBefore stepped ?_
      rintro key reqContext rfl absent
      rcases origin with ⟨made, -⟩ | ⟨segmentHits, -, other⟩ | ⟨-, other⟩
      · have looked : event = .lookup key reqContext := by
          cases event <;> simp_all [managerCall]
        exact ⟨events, reqContext, [], tier, by rw [looked], run, rfl, absent⟩
      · cases other
      · cases other
    · rw [same]
      exact askedBefore
  · intro frame inside item listed
    obtain ⟨same, before | starts | ⟨segmentHits, key, index, rest, asked, rfl⟩⟩ := moves.batchLookup_cases inv inside
    · rw [same]
      obtain ⟨query, query_at, key, past, earlier, moment, noRow⟩ := fresh.missing frame before item listed
      exact ⟨query, query_at, key, past, earlier, moment.mono grows, noRow⟩
    · rw [same]
      obtain ⟨query, query_at, key⟩ := (Asking.of_starts starts).listed item listed
      refine ⟨query, query_at, key, events, tier, fresh.now inv run query_at event, ?_⟩
      rw [starts.missing, List.mem_filter, starts.segmentHits] at listed
      simpa [List.getD_eq_getElem?_getD, query_at] using listed.2
    · rw [same]
      obtain ⟨query, query_at, key, past, earlier, moment, noRow⟩ :=
        fresh.missing _ asked item (List.mem_cons_of_mem _ listed)
      exact ⟨query, query_at, key, past, earlier, moment.mono grows, noRow⟩
  · intro frame inside index query hit query_at hit_at
    obtain ⟨same, before | starts | ⟨segmentHits, key, checked, rest, asked, rfl⟩⟩ := moves.batchLookup_cases inv inside
    · rw [same] at query_at
      exact (fresh.hits frame before index query hit query_at hit_at).imp id fun justified => justified.mono grows
    · rw [same] at query_at
      have now := fresh.now inv run query_at event
      rw [starts.segmentHits, List.getElem?_map, query_at, Option.map_some, Option.some.injEq] at hit_at
      rcases Classical.em (HasRow tier query.key) with row | noRow
      · right
        rw [← hit_at, decide_eq_true row]
        exact ⟨events, tier, now, .inl row⟩
      · left
        rw [starts.missing, List.mem_filter, starts.segmentHits]
        simp [List.mem_zipIdx_iff_getElem?, List.getD_eq_getElem?_getD, query_at, noRow]
    · rw [same] at query_at
      have now := fresh.now inv run query_at event
      obtain ⟨first, first_at, firstKey, past, before, moment, noRow⟩ :=
        fresh.missing _ asked _ (List.mem_cons_self ..)
      rcases eq_or_ne index checked with rfl | differ
      · obtain rfl := Option.some.inj (query_at.symm.trans first_at)
        obtain rfl : key = query.key := firstKey.symm
        have bound := (List.getElem?_eq_some_iff.mp hit_at).1
        rw [List.length_set] at bound
        rw [List.getElem?_set_self bound, Option.some.injEq] at hit_at
        right
        rcases Classical.em (fileName query.key ∈ tier.files) with file | noFile
        · rw [← hit_at, decide_eq_true file]
          exact ⟨events, tier, now, .inr file⟩
        · rw [← hit_at, decide_eq_false noFile]
          exact ⟨past, before, events, tier, moment.mono grows, noRow, moment.earlier, now, noFile⟩
      · simp only [List.getElem?_set_ne (Ne.symm differ)] at hit_at
        rcases fresh.hits _ asked index query hit query_at hit_at with listed | justified
        · rcases List.mem_cons.mp listed with head | later
          · exact absurd (congrArg Prod.snd head) differ
          · exact .inl later
        · exact .inr (justified.mono grows)

end History

/-- A definite answer is the result of the entry that the lookup leaves. -/
theorem entry_of_answer {tier : FileSystemTier} {key : OffloadKey} {reqContext : ReqContext} {hit : Bool}
    (answer : (tier.lookup key reqContext).1 = if hit then .hit else .miss) :
    ∃ state, (tier.lookup key reqContext).2.lookupManager.lookupState.get? key = some state ∧
      state.result = some hit := by
  have entry := AsyncLookup.get?_lookup tier.lookupManager key key reqContext
  rw [if_pos rfl] at entry
  refine ⟨_, entry, ?_⟩
  change (tier.lookupManager.lookup key reqContext).1 = some hit
  simp only [Model.FileSystemTier.lookup] at answer
  cases known : (tier.lookupManager.lookup key reqContext).1 with
  | none =>
    rw [known] at answer
    cases hit with
    | true => cases answer
    | false => cases answer
  | some found =>
    rw [known] at answer
    cases hit with
    | true =>
      cases found with
      | true => rfl
      | false => cases answer
    | false =>
      cases found with
      | true => cases answer
      | false => rfl

theorem run_fresh {fileName : OffloadKey → String} {segments : Option (Database × SegmentConfig)}
    {files : Finset String} {events : List TierEvent} {tier : FileSystemTier}
    (run : Run (Steps (step fileName)) (init segments files) events tier) (quiet : .raiseBatchLookup ∉ events) :
    Fresh fileName (init segments files) events tier := by
  revert quiet
  refine run.invariant
    (fun past tier => .raiseBatchLookup ∉ past → Fresh fileName (init segments files) past tier) ?_ ?_
  · intro _
    constructor
    · exact AsyncLookup.vouched_init
    · intro query member
      simp [init, AsyncLookup.unanswered, AsyncLookup.pendingOf, AsyncLookupManager.init] at member
    · intro frame inside
      cases inside
    · intro frame inside
      cases inside
  · intro past source event target before fresh moved quiet
    rw [List.mem_append, not_or, List.mem_singleton] at quiet
    exact (fresh quiet.1).moves (run_inv before) before moved (Ne.symm quiet.2)

/-- While no call of `batch_lookup` raises, each answer was true of its key after the query it answers was
made: a hit had a row or a file at some instant since then, a miss no row at one and no file then or later. -/
theorem answers_justified {fileName : OffloadKey → String} {segments : Option (Database × SegmentConfig)}
    {files : Finset String} {events : List TierEvent} {tier : FileSystemTier}
    (run : Run (Steps (step fileName)) (init segments files) events tier) (quiet : .raiseBatchLookup ∉ events)
    {key : OffloadKey} {reqContext : ReqContext} {hit : Bool}
    (answer : (tier.lookup key reqContext).1 = if hit then .hit else .miss) :
    ∃ state number, (tier.lookup key reqContext).2.lookupManager.lookupState.get? key = some state ∧
      state.answered = some number ∧ Justified fileName (init segments files) events key hit number := by
  obtain ⟨state, found, known⟩ := entry_of_answer answer
  have vouched := (run_fresh run quiet).vouched.lookup key reqContext
  obtain ⟨number, answered, justified⟩ := vouched.entries key state hit found known
  exact ⟨state, number, found, answered, justified⟩

/-- A file per block, named by its key. -/
def keyName (key : OffloadKey) : String := toString key

def request (reqId : String) : ReqContext := ⟨reqId, none⟩

/-- The worker takes the batch and tests the files of one key. -/
def oneLookup : List TierEvent := [.getBatch, .startBatchLookup, .checkFile, .endBatchLookup, .postResults]

theorem answers_justified_file : ∃ tier : FileSystemTier,
    replay (step keyName) (init none {keyName [1]}) (.lookup [1] (request "r1") :: .onScheduleEnd :: oneLookup) =
      some tier ∧ ∃ state number,
        (tier.lookup [1] (request "r1")).2.lookupManager.lookupState.get? [1] = some state ∧
        state.answered = some number ∧
        Justified keyName (init none {keyName [1]}) (.lookup [1] (request "r1") :: .onScheduleEnd :: oneLookup)
          [1] true number := by
  have executed : ((replay (step keyName) (init none {keyName [1]})
      (.lookup [1] (request "r1") :: .onScheduleEnd :: oneLookup)).map fun tier =>
        (tier.lookup [1] (request "r1")).1) = some .hit := by decide
  obtain ⟨tier, replayed, answer⟩ := Option.map_eq_some_iff.mp executed
  refine ⟨tier, replayed, answers_justified (Run.of_replay replayed) ?_ answer⟩
  simp [oneLookup]

/-- The key is stored after the query for another request was answered. -/
def storedSince : List TierEvent := .lookup [1] (request "r1") :: .onScheduleEnd :: oneLookup ++ [.writeFile [1]]

def emptyStore : Option (Database × SegmentConfig) := some (.empty, SharedStore.mixedConfig false)

/-- The row is committed while the file of an earlier run is being deleted, and the query is answered across it. -/
def movedMeanwhile : List TierEvent :=
  [.store (.prepareStore [[1]] [0]), .lookup [1] (request "r1"), .onScheduleEnd, .getBatch, .startBatchLookup,
    .delete [[1]], .store (.completeStore ⟨[⟨[1], 0, 0, 0⟩]⟩ true), .unlink false, .returnDelete, .checkFile,
    .endBatchLookup, .postResults]

/-- A request is told of a miss at its first lookup though the key has a file all along; and a key misses that
had a row or a file at every instant. -/
theorem missed_though_stored :
    (∃ tier : FileSystemTier, replay (step keyName) (init none ∅) storedSince = some tier ∧
      (∀ key reqContext, .lookup key reqContext ∈ storedSince → reqContext.reqId ≠ "r2") ∧
      (tier.lookup [1] (request "r2")).1 = .miss ∧ Durable keyName tier [1] ∧
      Durable keyName (tier.lookup [1] (request "r2")).2 [1]) ∧
    ∃ tier : FileSystemTier, replay (step keyName) (init emptyStore {keyName [1]})
        movedMeanwhile = some tier ∧ (tier.lookup [1] (request "r1")).1 = .miss ∧
      ∀ count ≤ movedMeanwhile.length, ∃ moment,
        replay (step keyName) (init emptyStore {keyName [1]}) (movedMeanwhile.take count) =
          some moment ∧ Durable keyName moment [1] := by
  constructor
  · have executed : ((replay (step keyName) (init none ∅) storedSince).map fun tier =>
        ((tier.lookup [1] (request "r2")).1, decide (Durable keyName tier [1] ∧
          Durable keyName (tier.lookup [1] (request "r2")).2 [1]))) = some (.miss, true) := by decide
    obtain ⟨tier, replayed, facts⟩ := Option.map_eq_some_iff.mp executed
    obtain ⟨miss, durable⟩ := Prod.mk.inj facts
    refine ⟨tier, replayed, ?_, miss, of_decide_eq_true durable⟩
    intro key reqContext member
    obtain ⟨-, rfl⟩ : key = [1] ∧ reqContext = request "r1" := by simpa [storedSince, oneLookup] using member
    decide
  · have executed : ((replay (step keyName) (init emptyStore {keyName [1]})
        movedMeanwhile).map fun tier => (tier.lookup [1] (request "r1")).1) = some .miss := by decide
    obtain ⟨tier, replayed, miss⟩ := Option.map_eq_some_iff.mp executed
    refine ⟨tier, replayed, miss, fun count bound => ?_⟩
    have durable : ∀ count ≤ movedMeanwhile.length,
        ((replay (step keyName) (init emptyStore {keyName [1]})
          (movedMeanwhile.take count)).map fun moment => decide (Durable keyName moment [1])) = some true := by decide
    obtain ⟨moment, reached, holds⟩ := Option.map_eq_some_iff.mp (durable count bound)
    exact ⟨moment, reached, of_decide_eq_true holds⟩

end FileSystemTier

end KVTiering.Soundness
