import KVTiering.Soundness.AsyncLookup

/-! # Lookup bookkeeping

The two maps of the lookup manager mirror each other whatever results are posted: results of keys that have
been dropped meanwhile, of keys nobody asked for, repeated ones. Only a lookup gives a request an entry in
`_req_keys`, and a cleanup takes it away, so the history of these two decides which requests have one.
-/

namespace KVTiering.Soundness.LookupBookkeeping

open Model AsyncLookupManager AsyncLookup

/-- A step of the two threads, or results posted from anywhere. -/
inductive DeliveryEvent where
  | thread (event : LookupEvent)
  | deliver (results : List LookupAnswer)

def deliver (m : AsyncLookupManager) (results : List LookupAnswer) : AsyncLookupManager :=
  { m with pendingResults := m.pendingResults ++ [results] }

def step (m : AsyncLookupManager) : DeliveryEvent → Option AsyncLookupManager
  | .thread event => m.step event
  | .deliver results => some (deliver m results)

/-! ## What one step does to the two maps -/

/-- What a step does to the entries of requests: a lookup adds to one, a cleanup drops one, and no other step
touches them. -/
theorem reqKeys_of_step {m m' : AsyncLookupManager} {event : DeliveryEvent} (moved : step m event = some m') :
    (∃ key reqContext, event = .thread (.lookup key reqContext) ∧ m' = (m.lookup key reqContext).2) ∨
      (∃ reqId, event = .thread (.cleanup reqId) ∧ m.cleanup reqId = .ok m') ∨
      (∀ reqId, event ≠ .thread (.cleanup reqId)) ∧ m'.reqKeys = m.reqKeys ∧ (Booked m → Booked m') := by
  rcases event with event | results
  · cases moves_of_step moved with
    | lookup => exact .inl ⟨_, _, rfl, rfl⟩
    | cleanup cleaned => exact .inr (.inl ⟨_, rfl, cleaned⟩)
    | flushNothing => exact .inr (.inr ⟨by simp, rfl, id⟩)
    | drainResults => exact .inr (.inr ⟨by simp, rfl, Booked.drainResults⟩)
    | _ => exact .inr (.inr ⟨by simp, rfl, fun booked => booked.congr rfl rfl⟩)
  · obtain rfl := Option.some.inj moved
    exact .inr (.inr ⟨by simp, rfl, fun booked => booked.congr rfl rfl⟩)

theorem booked_step {m m' : AsyncLookupManager} {event : DeliveryEvent} (booked : Booked m)
    (moved : step m event = some m') : Booked m' := by
  rcases reqKeys_of_step moved with ⟨key, reqContext, -, rfl⟩ | ⟨reqId, -, cleaned⟩ | ⟨-, -, keeps⟩
  · exact booked.lookup key reqContext
  · exact booked.cleanup cleaned
  · exact keeps booked

theorem run_booked {events : List DeliveryEvent} {m : AsyncLookupManager} (run : Run (Steps step) init events m) :
    Booked m :=
  run.preserves Booked init_inv.booked fun _ _ _ _ booked moved => booked_step booked moved

/-! ## Which requests have keys -/

theorem mem_keysOf {m : AsyncLookupManager} {reqId : String} {key : OffloadKey} :
    key ∈ keysOf m reqId ↔ ∃ keys, m.reqKeys.get? reqId = some keys ∧ key ∈ keys := by
  unfold keysOf
  cases m.reqKeys.get? reqId <;> simp

/-- The request has looked something up and has not been cleaned up since. -/
def Outstanding (events : List DeliveryEvent) (reqId : String) : Prop :=
  ∃ before key reqContext after, events = before ++ .thread (.lookup key reqContext) :: after ∧
    reqContext.reqId = reqId ∧ .thread (.cleanup reqId) ∉ after

theorem Outstanding.snoc {past : List DeliveryEvent} {reqId : String} (outstanding : Outstanding past reqId)
    {event : DeliveryEvent} (differ : event ≠ .thread (.cleanup reqId)) : Outstanding (past ++ [event]) reqId := by
  obtain ⟨before, key, reqContext, after, rfl, asked, kept⟩ := outstanding
  refine ⟨before, key, reqContext, after ++ [event], by simp, asked, ?_⟩
  rw [List.mem_append, List.mem_singleton, not_or]
  exact ⟨kept, differ.symm⟩

/-- A request with an entry is an outstanding one. -/
theorem outstanding_of_reqKeys {events : List DeliveryEvent} {m : AsyncLookupManager}
    (run : Run (Steps step) init events m) (reqId : String) (listed : m.reqKeys.get? reqId ≠ none) :
    Outstanding events reqId := by
  refine run.invariant (fun past m => ∀ reqId, m.reqKeys.get? reqId ≠ none → Outstanding past reqId) ?_ ?_
    reqId listed
  · intro reqId listed
    exact absurd rfl listed
  intro past source event target before ih moved reqId listed
  rcases reqKeys_of_step moved with ⟨key, reqContext, rfl, rfl⟩ | ⟨cleanedUp, rfl, cleaned⟩ | ⟨differ, same, -⟩
  · rcases eq_or_ne reqId reqContext.reqId with rfl | differ
    · exact ⟨past, key, reqContext, [], rfl, rfl, List.not_mem_nil⟩
    · refine (ih reqId ?_).snoc (by simp)
      have kept : (source.drainResults.track key reqContext).2.reqKeys = source.reqKeys := by
        unfold track
        split <;> rfl
      rwa [AsyncLookupManager.lookup, Dict.get?_set, if_neg differ, kept] at listed
  · rw [congrArg reqKeys (of_cleanup cleaned).1, Dict.get?_erase] at listed
    split at listed
    · exact absurd rfl listed
    · next differ =>
      refine (ih reqId listed).snoc ?_
      intro same
      injection same with same
      injection same with same
      exact differ same.symm
  · rw [same] at listed
    exact (ih reqId listed).snoc (differ reqId)

/-! ## Nothing leaks -/

/-- Every request that has looked something up has been cleaned up since its last lookup. -/
def CleanedUp (events : List DeliveryEvent) : Prop :=
  ∀ before key reqContext after, events = before ++ .thread (.lookup key reqContext) :: after →
    .thread (.cleanup reqContext.reqId) ∈ after

theorem CleanedUp.not_outstanding {events : List DeliveryEvent} (cleanedUp : CleanedUp events) (reqId : String) :
    ¬Outstanding events reqId := by
  rintro ⟨before, key, reqContext, after, same, rfl, kept⟩
  exact kept (cleanedUp before key reqContext after same)

/-- In every state reached, whatever results were delivered, a request waits at the entry of a key exactly when
the key is among its own; each entry has a request; a cleanup finds every entry it visits; and when all
requests have been cleaned up both maps are empty. -/
theorem bookkeeping_exact {events : List DeliveryEvent} {m : AsyncLookupManager}
    (run : Run (Steps step) init events m) :
    (∀ reqId key, (∃ state, m.lookupState.get? key = some state ∧ reqId ∈ state.requestIds) ↔
        ∃ keys, m.reqKeys.get? reqId = some keys ∧ key ∈ keys) ∧
      (∀ key state, m.lookupState.get? key = some state → state.requestIds.Nonempty) ∧
      (∀ reqId, ∃ m', m.cleanup reqId = .ok m') ∧
      (CleanedUp events → m.lookupState.items = [] ∧ m.reqKeys.items = []) := by
  have booked := run_booked run
  refine ⟨fun reqId key => ?_, fun key state found => ?_, fun reqId => ?_, fun cleanedUp => ?_⟩
  · rw [← mem_keysOf]
    constructor
    · rintro ⟨state, found, waits⟩
      exact (booked.waiting key state found).2 reqId waits
    · exact booked.listed reqId key
  · exact Finset.nonempty_iff_ne_empty.mpr (booked.waiting key state found).1
  · exact cleanup_ok booked reqId
  · have requests : ∀ reqId, m.reqKeys.get? reqId = none := by
      intro reqId
      by_contra listed
      exact cleanedUp.not_outstanding reqId (outstanding_of_reqKeys run reqId listed)
    refine ⟨Dict.items_eq_nil fun key => ?_, Dict.items_eq_nil requests⟩
    cases found : m.lookupState.get? key with
    | none => rfl
    | some state =>
      obtain ⟨some, listed⟩ := booked.waiting key state found
      obtain ⟨reqId, waits⟩ := Finset.nonempty_iff_ne_empty.mpr some
      have own := listed reqId waits
      rw [keysOf, requests] at own
      cases own

theorem cleanedUp_nil : CleanedUp [] := by
  intro before key reqContext after same
  simp at same

theorem CleanedUp.cons {event : DeliveryEvent} {rest : List DeliveryEvent} (later : CleanedUp rest)
    (first : ∀ key reqContext, event = .thread (.lookup key reqContext) →
      .thread (.cleanup reqContext.reqId) ∈ rest) : CleanedUp (event :: rest) := by
  rintro (_ | ⟨head, before⟩) key reqContext after same
  · obtain ⟨rfl, rfl⟩ := List.cons.inj same
    exact first key reqContext rfl
  · obtain ⟨-, rfl⟩ := List.cons.inj same
    exact later before key reqContext after rfl

/-- The results of the first request's query come when a second request has made the entry anew, and again
when nobody looks for the key any more. -/
def lateResults : List DeliveryEvent :=
  [.thread (.lookup [1] ⟨"r1", none⟩), .thread .flush, .thread (.cleanup "r1"), .thread (.lookup [1] ⟨"r2", none⟩),
    .deliver [⟨[1], true, 0⟩, ⟨[2], false, 5⟩], .thread (.lookup [1] ⟨"r2", none⟩), .thread (.cleanup "r2"),
    .deliver [⟨[1], false, 1⟩], .thread .drainResults]

theorem bookkeeping_exact_late : ∃ m, replay step init lateResults = some m ∧ m.pendingResults = [] ∧
    (∀ reqId, ∃ m', m.cleanup reqId = .ok m') ∧ m.lookupState.items = [] ∧ m.reqKeys.items = [] := by
  have executed : (replay step init lateResults).map pendingResults = some [] := by decide
  obtain ⟨m, replayed, applied⟩ := Option.map_eq_some_iff.mp executed
  have cleanedUp : CleanedUp lateResults := by
    unfold lateResults
    repeat refine CleanedUp.cons ?_ (by simp)
    exact cleanedUp_nil
  obtain ⟨-, -, cleanup, empty⟩ := bookkeeping_exact (Run.of_replay replayed)
  exact ⟨m, replayed, applied, cleanup, empty cleanedUp⟩

end KVTiering.Soundness.LookupBookkeeping
