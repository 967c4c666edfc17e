import KVTiering.Soundness.LocationCache
import KVTiering.Soundness.LookupResults
import KVTiering.Model.FileSystemTier

/-! # The steps of the tier

A step of the tier is a step of its lookup manager, a step inside of `batch_lookup`, or one that touches the
blocks only. So whatever holds of the lookup manager in all of its runs holds in the tier. A call of
`batch_lookup` belongs to the group that the worker asks for: it starts with the rows of the keys, and then
replaces the hits of the keys without a row one by one.
-/

namespace KVTiering.Soundness

open Model

namespace FileSystemTier

open Model.FileSystemTier

/-- The key has an index row. -/
def HasRow (tier : FileSystemTier) (key : OffloadKey) : Prop :=
  ∃ segments ∈ tier.segmentStore, segments.db.blocks.contains key = true

instance (tier : FileSystemTier) (key : OffloadKey) : Decidable (HasRow tier key) :=
  inferInstanceAs (Decidable (∃ segments ∈ tier.segmentStore, segments.db.blocks.contains key = true))

/-- The row of a key. -/
def row (tier : FileSystemTier) (key : OffloadKey) : Option SegmentLocation :=
  tier.segmentStore.bind fun segments => segments.db.blocks.get? key

/-- The queries that the worker asks `batch_lookup` for. -/
def group (tier : FileSystemTier) : List LookupQuery := tier.lookupManager.worker.group

/-- A call of `batch_lookup` is about the keys of the group. -/
structure Asking (tier : FileSystemTier) (frame : BatchLookup) : Prop where
  busy : group tier ≠ []
  parallel : frame.segmentHits.length = (group tier).length
  listed : ∀ item ∈ frame.missing, ∃ query, (group tier)[item.2]? = some query ∧ query.key = item.1

structure Inv (tier : FileSystemTier) : Prop where
  lookups : AsyncLookup.Inv tier.lookupManager
  mirrors : ∀ segments ∈ tier.segmentStore, Mirrors segments.store segments.db
  asking : ∀ frame ∈ tier.batchLookup, Asking tier frame

/-- The call on the lookup manager that the scheduler or the worker makes outside of `batch_lookup`. -/
def managerCall : TierEvent → Option LookupEvent
  | .lookup key reqContext => some (.lookup key reqContext)
  | .onScheduleEnd => some .flush
  | .onRequestFinished reqContext => some (.cleanup reqContext.reqId)
  | .getBatch => some .getBatch
  | .postResults => some .postResults
  | _ => none

/-- The call that replaces the tables and the cache. -/
def storeCall : TierEvent → Option StoreCall
  | .delete keys => some (.delete keys)
  | .store call => some call
  | _ => none

/-- What a call of `batch_lookup` starts with. -/
structure Starts (tier : FileSystemTier) (frame : BatchLookup) : Prop where
  busy : group tier ≠ []
  segmentHits : frame.segmentHits = (group tier).map fun query => decide (HasRow tier query.key)
  missing : frame.missing =
    ((group tier).map LookupQuery.key).zipIdx.filter fun item => !frame.segmentHits.getD item.2 false

/-- What a step can do. -/
inductive Moves (fileName : OffloadKey → String) (tier : FileSystemTier) : TierEvent → FileSystemTier → Prop
  | manager {event : TierEvent} {call : LookupEvent} {lookupManager : AsyncLookupManager}
      (made : managerCall event = some call) (moved : tier.lookupManager.step call = some lookupManager) :
      Moves fileName tier event { tier with lookupManager := lookupManager }
  | answered {segmentHits : List Bool} {lookupManager : AsyncLookupManager}
      (asked : tier.batchLookup = some ⟨segmentHits, []⟩)
      (moved : tier.lookupManager.answerGroup (some segmentHits) = some lookupManager) :
      Moves fileName tier .endBatchLookup { tier with lookupManager := lookupManager, batchLookup := none }
  | raised {lookupManager : AsyncLookupManager} (moved : tier.lookupManager.answerGroup none = some lookupManager) :
      Moves fileName tier .raiseBatchLookup { tier with lookupManager := lookupManager, batchLookup := none }
  | started {segmentStore : Option SoleStore} {frame : BatchLookup} (starts : Starts tier frame)
      (asked : segmentStore = tier.segmentStore.map fun segments =>
        segments.call (.getLocations ((group tier).map LookupQuery.key))) :
      Moves fileName tier .startBatchLookup { tier with segmentStore := segmentStore, batchLookup := some frame }
  | checked {segmentHits : List Bool} {key : OffloadKey} {index : ℕ} {rest : List (OffloadKey × ℕ)}
      (asked : tier.batchLookup = some ⟨segmentHits, (key, index) :: rest⟩) :
      Moves fileName tier .checkFile { tier with
        batchLookup := some ⟨segmentHits.set index (decide (fileName key ∈ tier.files)), rest⟩ }
  | stored {event : TierEvent} {call : StoreCall} {segmentStore : Option SoleStore} {deletion : Option Deletion}
      (made : storeCall event = some call)
      (called : segmentStore = tier.segmentStore.map fun segments => segments.call call) :
      Moves fileName tier event { tier with segmentStore := segmentStore, deletion := deletion }
  | filed {event : TierEvent} {files : Finset String} {deletion : Option Deletion}
      (changed : files ⊆ tier.files ∨ ∃ key, event = .writeFile key ∧ files = insert (fileName key) tier.files) :
      Moves fileName tier event { tier with files := files, deletion := deletion }

variable {fileName : OffloadKey → String} {tier tier' : FileSystemTier} {event : TierEvent}

theorem not_hasRow (noStore : tier.segmentStore = none) (key : OffloadKey) : ¬HasRow tier key := by
  rintro ⟨segments, listed, -⟩
  rw [noStore] at listed
  cases listed

theorem hasRow_iff {segments : SoleStore} (store : tier.segmentStore = some segments) (key : OffloadKey) :
    HasRow tier key ↔ segments.db.blocks.contains key = true := by
  simp [HasRow, store]

theorem hasRow_iff_isSome (key : OffloadKey) : HasRow tier key ↔ (row tier key).isSome := by
  rw [row]
  cases store : tier.segmentStore with
  | none => simp [not_hasRow store]
  | some segments => rw [hasRow_iff store]; rfl

/-- A call of `batch_lookup` starts with the rows of its keys. -/
theorem startBatchLookup_cases (inv : Inv tier) (moved : tier.startBatchLookup = some tier') :
    ∃ frame, Starts tier frame ∧ tier' = { tier with
      segmentStore := tier.segmentStore.map fun segments =>
        segments.call (.getLocations ((group tier).map LookupQuery.key))
      batchLookup := some frame } := by
  simp only [startBatchLookup, Option.ite_none_left_eq_some] at moved
  obtain ⟨busy, same⟩ := moved
  have asks : group tier ≠ [] := by
    intro nothing
    rw [group] at nothing
    simp [nothing] at busy
  split at same
  · next noStore =>
    obtain rfl := Option.some.inj same
    refine ⟨_, ⟨asks, ?_, ?_⟩, by rw [noStore]; rfl⟩
    · simp [group, not_hasRow noStore]
    · symm
      apply List.filter_eq_self.mpr
      intro item _
      simp only [List.getD_eq_getElem?_getD, List.getElem?_map]
      cases (tier.lookupManager.worker.group[item.2]?) <;> rfl
  · next segments store =>
    obtain rfl := Option.some.inj same
    refine ⟨_, ⟨asks, ?_, rfl⟩, by rw [store]; rfl⟩
    have rows := (inv.mirrors segments store).getLocations_fst ((group tier).map LookupQuery.key)
    change (segments.store.getLocations segments.db ((group tier).map LookupQuery.key)).1.map Option.isSome = _
    rw [rows, List.map_map, List.map_map]
    apply List.map_congr_left
    intro query _
    simp [hasRow_iff store, Dict.contains]

/-- Every step is one of these. -/
theorem step_moves (inv : Inv tier) (moved : step fileName tier event = some tier') :
    Moves fileName tier event tier' := by
  cases event with
  | lookup key reqContext =>
    simp only [step, Option.ite_none_right_eq_some] at moved
    obtain ⟨-, same⟩ := moved
    obtain rfl := Option.some.inj same
    exact .manager rfl rfl
  | onScheduleEnd =>
    simp only [step, Option.ite_none_right_eq_some] at moved
    obtain ⟨-, same⟩ := moved
    obtain rfl := Option.some.inj same
    exact .manager rfl rfl
  | onRequestFinished reqContext =>
    simp only [step, Option.ite_none_right_eq_some, onRequestFinished] at moved
    obtain ⟨-, same⟩ := moved
    cases cleaned : tier.lookupManager.cleanup reqContext.reqId with
    | error raised => simp [cleaned, Except.toOption] at same
    | ok lookupManager =>
      rw [cleaned] at same
      obtain rfl := Option.some.inj same
      exact .manager rfl (by simp [AsyncLookupManager.step, cleaned, Except.toOption])
  | delete keys =>
    simp only [step, Option.ite_none_right_eq_some, delete] at moved
    obtain ⟨-, same⟩ := moved
    obtain rfl := Option.some.inj same
    split
    · next noStore => exact .stored rfl (by rw [noStore]; rfl)
    · next segments store => exact .stored rfl (by rw [store]; rfl)
  | unlink failed =>
    simp only [step, unlink] at moved
    split at moved
    · split_ifs at moved
      · obtain rfl := Option.some.inj moved
        exact .filed (.inl (Finset.Subset.refl _))
      · obtain rfl := Option.some.inj moved
        exact .filed (.inl (Finset.erase_subset ..))
      · obtain rfl := Option.some.inj moved
        exact .filed (.inl (Finset.Subset.refl _))
    · cases moved
  | returnDelete =>
    simp only [step, returnDelete, Option.map_eq_some_iff] at moved
    obtain ⟨⟨result, final⟩, returned, rfl⟩ := moved
    split at returned
    · obtain ⟨-, rfl⟩ := Prod.mk.inj (Option.some.inj returned)
      exact .filed (.inl (Finset.Subset.refl _))
    · cases returned
  | store call =>
    simp only [step, Option.map_eq_some_iff] at moved
    obtain ⟨segments, store, rfl⟩ := moved
    exact .stored rfl (by rw [store]; rfl)
  | writeFile key =>
    obtain rfl := Option.some.inj moved
    exact .filed (.inr ⟨key, rfl, rfl⟩)
  | removeFile key =>
    obtain rfl := Option.some.inj moved
    exact .filed (.inl (Finset.erase_subset ..))
  | getBatch =>
    simp only [step, Option.map_eq_some_iff] at moved
    obtain ⟨lookupManager, got, rfl⟩ := moved
    exact .manager rfl got
  | startBatchLookup =>
    obtain ⟨frame, starts, rfl⟩ := startBatchLookup_cases inv moved
    exact .started starts rfl
  | checkFile =>
    simp only [step, checkFile] at moved
    split at moved
    · next segmentHits key index rest asked =>
      obtain rfl := Option.some.inj moved
      exact .checked asked
    · cases moved
  | endBatchLookup =>
    simp only [step, endBatchLookup] at moved
    split at moved
    · next segmentHits asked =>
      obtain ⟨lookupManager, answered, rfl⟩ := Option.map_eq_some_iff.mp moved
      exact .answered asked answered
    · cases moved
  | raiseBatchLookup =>
    simp only [step, raiseBatchLookup, Option.map_eq_some_iff] at moved
    obtain ⟨lookupManager, answered, rfl⟩ := moved
    exact .raised answered
  | postResults =>
    simp only [step, Option.map_eq_some_iff] at moved
    obtain ⟨lookupManager, posted, rfl⟩ := moved
    exact .manager rfl posted

/-- The step of the lookup manager that a step of the tier makes, if it makes one. -/
theorem Moves.manager_step (moves : Moves fileName tier event tier') (inv : Inv tier) :
    (∃ call, tier.lookupManager.step call = some tier'.lookupManager ∧
      ((managerCall event = some call ∧ ∀ outcome, call ≠ .answerGroup outcome) ∨
        (∃ segmentHits, tier.batchLookup = some ⟨segmentHits, []⟩ ∧ call = .answerGroup (some segmentHits)) ∨
        event = .raiseBatchLookup ∧ call = .answerGroup none)) ∨
      tier'.lookupManager = tier.lookupManager := by
  cases moves with
  | @manager _ call _ made moved =>
    refine .inl ⟨call, moved, .inl ⟨made, ?_⟩⟩
    rintro outcome rfl
    cases event <;> simp [managerCall] at made
  | @answered segmentHits _ asked moved =>
    refine .inl ⟨.answerGroup (some segmentHits), ?_, .inr (.inl ⟨segmentHits, asked, rfl⟩)⟩
    rw [AsyncLookupManager.step, if_pos]
    · exact moved
    · intro hits same
      obtain rfl := Option.some.inj same
      exact (inv.asking _ asked).parallel
  | raised moved =>
    refine .inl ⟨.answerGroup none, ?_, .inr (.inr ⟨rfl, rfl⟩)⟩
    rw [AsyncLookupManager.step, if_pos]
    · exact moved
    · intro hits absurd
      cases absurd
  | started => exact .inr rfl
  | checked => exact .inr rfl
  | stored => exact .inr rfl
  | filed => exact .inr rfl

/-- Where a step leaves the worker inside of `batch_lookup`: where it was, at the start of a call, or one file
further. The group stays the same. -/
theorem Moves.batchLookup_cases (moves : Moves fileName tier event tier') (inv : Inv tier) {frame : BatchLookup}
    (inside : frame ∈ tier'.batchLookup) : group tier' = group tier ∧
      (frame ∈ tier.batchLookup ∨ Starts tier frame ∨ ∃ segmentHits key index rest,
        tier.batchLookup = some ⟨segmentHits, (key, index) :: rest⟩ ∧
        frame = ⟨segmentHits.set index (decide (fileName key ∈ tier.files)), rest⟩) := by
  cases moves with
  | @manager _ call _ made moved =>
    refine ⟨?_, .inl inside⟩
    rcases AsyncLookup.worker_step moved (inv.asking frame inside).busy with same | ⟨outcome, rfl⟩
    · exact congrArg LookupWorker.group same
    · cases event <;> simp [managerCall] at made
  | answered => cases inside
  | raised => cases inside
  | started starts =>
    obtain rfl := Option.some.inj inside
    exact ⟨rfl, .inr (.inl starts)⟩
  | checked asked =>
    obtain rfl := Option.some.inj inside
    exact ⟨rfl, .inr (.inr ⟨_, _, _, _, asked, rfl⟩)⟩
  | stored => exact ⟨rfl, .inl inside⟩
  | filed => exact ⟨rfl, .inl inside⟩

theorem Asking.of_starts {frame : BatchLookup} (starts : Starts tier frame) : Asking tier frame := by
  refine ⟨starts.busy, ?_, ?_⟩
  · rw [starts.segmentHits, List.length_map]
  · rintro ⟨key, index⟩ member
    rw [starts.missing, List.mem_filter] at member
    obtain ⟨query, found, rfl⟩ : ∃ query, (group tier)[index]? = some query ∧ query.key = key := by
      simpa [List.mem_zipIdx_iff_getElem?] using member.1
    exact ⟨query, found, rfl⟩

theorem Inv.moves (inv : Inv tier) (moves : Moves fileName tier event tier') : Inv tier' := by
  constructor
  · rcases moves.manager_step inv with ⟨call, moved, -⟩ | same
    · exact inv.lookups.step moved
    · rw [same]
      exact inv.lookups
  · have called : ∀ call, ∀ segments ∈ tier.segmentStore.map fun segments => segments.call call,
        Mirrors segments.store segments.db := by
      intro call segments listed
      obtain ⟨before, store, rfl⟩ := Option.mem_map.mp listed
      exact SoleStore.mirrors_call (inv.mirrors before store) call
    cases moves with
    | manager => exact inv.mirrors
    | answered => exact inv.mirrors
    | raised => exact inv.mirrors
    | started _ asked =>
      rw [asked]
      exact called _
    | checked => exact inv.mirrors
    | stored _ same =>
      rw [same]
      exact called _
    | filed => exact inv.mirrors
  · intro frame inside
    obtain ⟨same, before | starts | ⟨segmentHits, key, index, rest, asked, rfl⟩⟩ := moves.batchLookup_cases inv inside
    · obtain ⟨busy, parallel, listed⟩ := inv.asking frame before
      exact ⟨same ▸ busy, same ▸ parallel, same ▸ listed⟩
    · obtain ⟨busy, parallel, listed⟩ := Asking.of_starts starts
      exact ⟨same ▸ busy, same ▸ parallel, same ▸ listed⟩
    · obtain ⟨busy, parallel, listed⟩ := inv.asking _ asked
      refine ⟨same ▸ busy, ?_, fun item member => ?_⟩
      · rw [same, List.length_set]
        exact parallel
      · rw [same]
        exact listed item (List.mem_cons_of_mem _ member)

theorem init_inv (segments : Option (Database × SegmentConfig)) (files : Finset String) :
    Inv (init segments files) := by
  constructor
  · exact AsyncLookup.init_inv
  · intro store listed
    obtain ⟨opened, -, rfl⟩ := Option.mem_map.mp listed
    exact mirrors_init opened.2 opened.1
  · intro frame inside
    cases inside

/-- The invariant of the tier and its lookup manager holds in all runs. -/
theorem run_inv {segments : Option (Database × SegmentConfig)} {files : Finset String} {events : List TierEvent}
    (run : Run (Steps (step fileName)) (init segments files) events tier) : Inv tier :=
  run.preserves Inv (init_inv segments files) fun _ _ _ _ inv moved => inv.moves (step_moves inv moved)

end FileSystemTier

end KVTiering.Soundness
