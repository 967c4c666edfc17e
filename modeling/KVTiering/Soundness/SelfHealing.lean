import KVTiering.Model.SegmentFiles
import KVTiering.Soundness.LocationCache
import KVTiering.Soundness.Placement
import KVTiering.Soundness.PlainReads
import KVTiering.Soundness.PlainWrites

/-! # A failed load heals itself

A load that raises while it reads deletes its keys. The store is a process of the shared model, alone on its
directory: its cache is a part of the table, so the deleted keys are neither indexed nor cached, and the next store
plans all of them, at extents that meet none of those issued before. Writing and reading are plain, so a load then
gets the new bytes.
-/

namespace KVTiering.Soundness

open Model

namespace SegmentFiles

open Model.SegmentFiles

/-! ## Runs -/

/-- The store as the only process on its directory. -/
def shared (s : SegmentFiles) : SharedStore Unit := ⟨s.db, fun _ => s.store, fun _ => s.plans, s.issued⟩

theorem shared_update (s : SegmentFiles) (db : Database) (store : SegmentStore) :
    shared (s.update db store) = (shared s).update () db store := by
  have replaced : (fun _ : Unit => store) = Function.update (fun _ => s.store) () store :=
    funext fun _ => (Function.update_self () store fun _ => s.store).symm
  exact congrArg (SharedStore.mk db · _ _) replaced

theorem shared_prepared (s : SegmentFiles) (plan : SegmentStorePlan) (db : Database) (store : SegmentStore) :
    shared (s.prepared plan db store) = (shared s).prepared () plan db store := by
  have replaced : (fun _ : Unit => store) = Function.update (fun _ => s.store) () store :=
    funext fun _ => (Function.update_self () store fun _ => s.store).symm
  have given : (fun _ : Unit => plan :: s.plans) = Function.update (fun _ => s.plans) () (plan :: s.plans) :=
    funext fun _ => (Function.update_self () (plan :: s.plans) fun _ => s.plans).symm
  exact congrArg₂ (SharedStore.mk db · · _) replaced given

/-- The invariant of every run from a database without metadata. -/
structure Inv (s : SegmentFiles) : Prop where
  safe : SharedStore.Safe (shared s)
  mirrors : Mirrors s.store s.db

section Steps

variable {s t : SegmentFiles}

theorem inv_init {db : Database} (config : SegmentConfig) (segments : SegmentMap)
    (noMetadata : db.metadata.items = []) : Inv (.init db config segments) :=
  ⟨SharedStore.safe_init db (fun _ => config) noMetadata, mirrors_init config db⟩

theorem Inv.lookUp (inv : Inv s) (keys : List OffloadKey) : Inv (s.lookUp keys) := by
  refine ⟨?_, inv.mirrors.getLocations keys⟩
  rw [Model.SegmentFiles.lookUp, shared_update]
  exact inv.safe.step (show (shared s).step (.getLocations () keys) = some _ from rfl)

theorem Inv.deleted (inv : Inv s) (keys : List OffloadKey) : Inv (s.deleted keys) := by
  refine ⟨?_, inv.mirrors.delete keys⟩
  rw [Model.SegmentFiles.deleted, shared_update]
  exact inv.safe.step (SharedStore.step_delete (shared s) () keys)

theorem Inv.prepared (inv : Inv s) {keys : List OffloadKey} {blockIds : List ℕ} {plan : SegmentStorePlan}
    {db : Database} {store : SegmentStore}
    (returned : s.store.prepareStore s.db keys blockIds = .ok (plan, db, store)) : Inv (s.prepared plan db store) := by
  refine ⟨?_, inv.mirrors.prepareStore returned⟩
  rw [shared_prepared]
  have asked : ((shared s).store ()).prepareStore (shared s).db keys blockIds = .ok (plan, db, store) := returned
  exact inv.safe.prepared asked

theorem Inv.completed (inv : Inv s) {plan : SegmentStorePlan} (given : plan ∈ s.plans) (success : Bool) :
    Inv (s.completed plan success) := by
  refine ⟨?_, inv.mirrors.completeStore plan success⟩
  rw [Model.SegmentFiles.completed, shared_update]
  exact inv.safe.step (show (shared s).step (.completeStore () plan success) = some _ from if_pos given)

theorem Inv.completeRaised (inv : Inv s) {plan : SegmentStorePlan} (given : plan ∈ s.plans) (read : List OffloadKey) :
    Inv (s.update (s.db.indexPlan s.store.config.blockSize plan)
      (s.store.getLocations (s.db.indexPlan s.store.config.blockSize plan) read).2) := by
  refine ⟨?_, (inv.mirrors.indexPlan _ plan).getLocations read⟩
  rw [shared_update]
  exact inv.safe.step (show (shared s).step (.completeRaised () plan read) = some _ from if_pos given)

theorem Inv.storeMany (inv : Inv s) (iovMax : ℕ) (keys : List OffloadKey) (buffer : List UInt8) (blockIds : List ℕ)
    (interrupted : Option Interruption) : Inv (s.storeMany iovMax keys buffer blockIds interrupted).2 := by
  unfold Model.SegmentFiles.storeMany
  split
  · exact inv
  · next plan db store returned =>
    have prepared := inv.prepared returned
    dsimp only
    split
    · next segments _ =>
      exact Inv.completed (s := { s.prepared plan db store with segments := segments })
        ⟨prepared.safe, prepared.mirrors⟩ (List.mem_cons_self ..) false
    · next segments _ =>
      exact Inv.completed (s := { s.prepared plan db store with segments := segments })
        ⟨prepared.safe, prepared.mirrors⟩ (List.mem_cons_self ..) true

/-- A load is refused or returns, or it fails and deletes its keys. -/
def LoadEnds (s : SegmentFiles) (keys : List OffloadKey) (buffer : List UInt8)
    (result : TransferEnd × List UInt8 × SegmentFiles) : Prop :=
  (∃ error, result = (.refused error, buffer, s)) ∨ (∃ filled, result = (.returned, filled, s)) ∨
    ∃ filled, result = (.failed, filled, s.deleted keys)

theorem loadLocated_cases (s : SegmentFiles) (maxBuffers : ℕ) (keys : List OffloadKey) (buffer : List UInt8)
    (blockIds : List ℕ) (locations : List (Option SegmentLocation)) (interrupted : Option Interruption) :
    LoadEnds s keys buffer (s.loadLocated maxBuffers keys buffer blockIds locations interrupted) := by
  unfold Model.SegmentFiles.loadLocated
  dsimp only
  split_ifs
  · exact .inl ⟨_, rfl⟩
  · exact .inl ⟨_, rfl⟩
  · split
    · exact .inr (.inl ⟨_, rfl⟩)
    · exact .inr (.inr ⟨_, rfl⟩)

/-- It has looked its keys up or not. -/
theorem loadMany_cases (s : SegmentFiles) (iovMax : ℕ) (ioBatchBlocks : Option ℕ) (keys : List OffloadKey)
    (buffer : List UInt8) (blockIds : List ℕ) (locations : Option (List (Option SegmentLocation)))
    (interrupted : Option Interruption) :
    ∃ s', (s' = s ∨ s' = s.lookUp keys) ∧
      LoadEnds s' keys buffer (s.loadMany iovMax ioBatchBlocks keys buffer blockIds locations interrupted) := by
  unfold Model.SegmentFiles.loadMany
  split_ifs
  · exact ⟨s, .inl rfl, .inl ⟨_, rfl⟩⟩
  · cases locations with
    | none => exact ⟨s.lookUp keys, .inr rfl, loadLocated_cases ..⟩
    | some locations => exact ⟨s, .inl rfl, loadLocated_cases ..⟩

theorem Inv.loadMany (inv : Inv s) (iovMax : ℕ) (ioBatchBlocks : Option ℕ) (keys : List OffloadKey)
    (buffer : List UInt8) (blockIds : List ℕ) (locations : Option (List (Option SegmentLocation)))
    (interrupted : Option Interruption) :
    Inv (s.loadMany iovMax ioBatchBlocks keys buffer blockIds locations interrupted).2.2 := by
  obtain ⟨s', origin, ended⟩ := loadMany_cases s iovMax ioBatchBlocks keys buffer blockIds locations interrupted
  have looked : Inv s' := by
    rcases origin with rfl | rfl
    · exact inv
    · exact inv.lookUp keys
  rcases ended with ⟨_, same⟩ | ⟨_, same⟩ | ⟨_, same⟩ <;> rw [same]
  · exact looked
  · exact looked
  · exact looked.deleted keys

theorem Inv.step (inv : Inv s) {call : SegmentCall} (moved : s.step call = some t) : Inv t := by
  cases call with
  | getLocations keys =>
    obtain rfl := Option.some.inj moved
    exact inv.lookUp keys
  | prepareStore keys blockIds =>
    simp only [Model.SegmentFiles.step] at moved
    split at moved
    · obtain rfl := Option.some.inj moved
      exact inv
    · next returned =>
      obtain rfl := Option.some.inj moved
      exact inv.prepared returned
  | writeEntries iovMax ioBatchBlocks entries buffer interrupted =>
    simp only [Model.SegmentFiles.step] at moved
    split at moved <;>
    · obtain rfl := Option.some.inj moved
      exact ⟨inv.safe, inv.mirrors⟩
  | completeStore plan success =>
    obtain ⟨given, same⟩ := Option.ite_none_right_eq_some.mp moved
    obtain rfl := Option.some.inj same
    exact inv.completed given success
  | completeRaised plan read =>
    obtain ⟨given, same⟩ := Option.ite_none_right_eq_some.mp moved
    obtain rfl := Option.some.inj same
    exact inv.completeRaised given read
  | storeMany iovMax keys buffer blockIds interrupted =>
    obtain rfl := Option.some.inj moved
    exact inv.storeMany iovMax keys buffer blockIds interrupted
  | loadMany iovMax ioBatchBlocks keys buffer blockIds locations interrupted =>
    obtain rfl := Option.some.inj moved
    exact inv.loadMany iovMax ioBatchBlocks keys buffer blockIds locations interrupted
  | delete keys =>
    obtain rfl := Option.some.inj moved
    exact inv.deleted keys
  | reopen config =>
    obtain rfl := Option.some.inj moved
    refine ⟨?_, mirrors_init config s.db⟩
    have opened : shared { s with store := .init config, plans := [] } = { shared s with
        store := Function.update (shared s).store () (.init config)
        plans := Function.update (shared s).plans () [] } := by
      refine congrArg₂ (SharedStore.mk s.db · · s.issued) (funext fun _ => ?_) (funext fun _ => ?_)
      · exact (Function.update_self () (SegmentStore.init config) fun _ => s.store).symm
      · exact (Function.update_self () [] fun _ => s.plans).symm
    rw [opened]
    exact inv.safe.step (show (shared s).step (.restart () config) = some _ from rfl)
  | alterFiles segments =>
    obtain rfl := Option.some.inj moved
    exact ⟨inv.safe, inv.mirrors⟩

theorem Inv.run (inv : Inv s) {calls : List SegmentCall} (run : Run (Steps Model.SegmentFiles.step) s calls t) :
    Inv t :=
  run.preserves Inv inv fun _ _ _ _ inv moved => inv.step moved

end Steps

/-! ## Keys without a row -/

/-- The call may index the key. -/
def Stores (key : OffloadKey) : SegmentCall → Prop
  | .completeStore plan success => success = true ∧ key ∈ plan.entries.map SegmentWrite.key
  | .completeRaised plan _ => key ∈ plan.entries.map SegmentWrite.key
  | .storeMany _ keys _ _ _ => key ∈ keys
  | _ => False

section Rows

variable {s t : SegmentFiles} {key : OffloadKey}

theorem get?_completed {plan : SegmentStorePlan} {success : Bool}
    (other : ¬(success = true ∧ key ∈ plan.entries.map SegmentWrite.key)) :
    (s.completed plan success).db.blocks.get? key = s.db.blocks.get? key := by
  simp only [Model.SegmentFiles.completed, SegmentStore.completeStore]
  split
  · rfl
  · next done =>
    have success : success = true := by
      cases success <;> simp at done ⊢
    exact get?_indexPlan_of_notMem (fun planned => other ⟨success, planned⟩) _ _

theorem get?_deleted (s : SegmentFiles) (keys : List OffloadKey) (key : OffloadKey) :
    (s.deleted keys).db.blocks.get? key = if key ∈ keys then none else s.db.blocks.get? key :=
  SegmentStore.delete_blocks s.store s.db keys key

/-- A key gets a row only by a call that stores it. -/
theorem absent_step {call : SegmentCall} (absent : s.db.blocks.get? key = none) (other : ¬Stores key call)
    (moved : s.step call = some t) : t.db.blocks.get? key = none := by
  cases call with
  | getLocations keys =>
    obtain rfl := Option.some.inj moved
    exact absent
  | prepareStore keys blockIds =>
    simp only [Model.SegmentFiles.step] at moved
    split at moved
    · obtain rfl := Option.some.inj moved
      exact absent
    · next plan db store returned =>
      obtain rfl := Option.some.inj moved
      change db.blocks.get? key = none
      rwa [prepareStore_blocks returned]
  | writeEntries iovMax ioBatchBlocks entries buffer interrupted =>
    simp only [Model.SegmentFiles.step] at moved
    split at moved <;>
    · obtain rfl := Option.some.inj moved
      exact absent
  | completeStore plan success =>
    obtain ⟨-, same⟩ := Option.ite_none_right_eq_some.mp moved
    obtain rfl := Option.some.inj same
    rwa [get?_completed other]
  | completeRaised plan read =>
    obtain ⟨-, same⟩ := Option.ite_none_right_eq_some.mp moved
    obtain rfl := Option.some.inj same
    exact (get?_indexPlan_of_notMem other _ _).trans absent
  | storeMany iovMax keys buffer blockIds interrupted =>
    obtain rfl := Option.some.inj moved
    unfold Model.SegmentFiles.storeMany
    split
    · exact absent
    · next plan db store returned =>
      have unplanned : key ∉ plan.entries.map SegmentWrite.key := by
        intro planned
        exact other ((prepareStore_plans returned key).mp (List.mem_map.mp planned)).1
      have kept : ∀ (segments : SegmentMap) (success : Bool), (Model.SegmentFiles.completed
          { s.prepared plan db store with segments := segments } plan success).db.blocks.get? key = none := by
        intro segments success
        rw [get?_completed fun indexed => unplanned indexed.2]
        change db.blocks.get? key = none
        rwa [prepareStore_blocks returned]
      dsimp only
      split
      · exact kept _ false
      · exact kept _ true
  | loadMany iovMax ioBatchBlocks keys buffer blockIds locations interrupted =>
    obtain rfl := Option.some.inj moved
    obtain ⟨s', origin, ended⟩ := loadMany_cases s iovMax ioBatchBlocks keys buffer blockIds locations interrupted
    have same : s'.db = s.db := by
      rcases origin with rfl | rfl <;> rfl
    rcases ended with ⟨_, ended⟩ | ⟨_, ended⟩ | ⟨_, ended⟩ <;> rw [ended]
    · rwa [same]
    · rwa [same]
    · rw [get?_deleted, same, absent, ite_self]
  | delete keys =>
    obtain rfl := Option.some.inj moved
    rw [get?_deleted, absent, ite_self]
  | reopen config =>
    obtain rfl := Option.some.inj moved
    exact absent
  | alterFiles segments =>
    obtain rfl := Option.some.inj moved
    exact absent

theorem absent_run {calls : List SegmentCall} (run : Run (Steps Model.SegmentFiles.step) s calls t)
    (others : ∀ call ∈ calls, ¬Stores key call) (absent : s.db.blocks.get? key = none) :
    t.db.blocks.get? key = none :=
  run.preserves (fun s => s.db.blocks.get? key = none) absent
    fun _ _ _ member absent moved => absent_step absent (others _ member) moved

end Rows

/-! ## The failed load -/

/-- The rows, the cache, the metadata and the segment files after a load that has failed. -/
structure Deleted (s : SegmentFiles) (keys : List OffloadKey) (s' : SegmentFiles) : Prop where
  rows : ∀ key ∈ keys, s'.db.blocks.get? key = none
  cached : ∀ key ∈ keys, s'.store.locationCache.get? key = none
  otherRows : ∀ key ∉ keys, s'.db.blocks.get? key = s.db.blocks.get? key
  otherCached : ∀ key ∉ keys, s'.store.locationCache.get? key = s.store.locationCache.get? key
  metadata : s'.db.metadata = s.db.metadata
  segments : s'.segments = s.segments

theorem Inv.failed {s : SegmentFiles} (inv : Inv s) (keys : List OffloadKey) : Deleted s keys (s.deleted keys) where
  rows key member := by rw [get?_deleted, if_pos member]
  cached key member := (inv.deleted keys).mirrors.uncached (by rw [get?_deleted, if_pos member])
  otherRows key other := by rw [get?_deleted, if_neg other]
  otherCached key other := (SegmentStore.delete_cache ..).trans (if_neg fun both => other both.1)
  metadata := rfl
  segments := rfl

/-- Looking up the keys of the load first makes no difference. -/
theorem Deleted.of_lookUp {s s' : SegmentFiles} {keys : List OffloadKey} (deleted : Deleted (s.lookUp keys) keys s') :
    Deleted s keys s' where
  rows := deleted.rows
  cached := deleted.cached
  otherRows := deleted.otherRows
  otherCached key other := by
    refine (deleted.otherCached key other).trans ?_
    change (s.store.getLocations s.db keys).2.locationCache.get? key = _
    rw [SegmentStore.getLocations_cache, if_neg other, Option.or_none]
  metadata := deleted.metadata
  segments := deleted.segments

/-! ## The next store -/

/-- What the segment files hold; a missing file holds nothing. -/
def contents (segments : SegmentMap) (segmentId : ℕ) : List UInt8 := (segments segmentId).getD []

theorem contents_update (segments : SegmentMap) (segmentId : ℕ) (file : List UInt8) :
    contents (Function.update segments segmentId (some file)) = Function.update (contents segments) segmentId file := by
  funext other
  rcases eq_or_ne other segmentId with rfl | differ
  · simp [contents]
  · simp [contents, differ]

/-- A transfer that returns has made all of its calls. -/
theorem transfer_returned {σ : Type} {perform : σ → IoCall → Except σ σ} {cut : Option ℕ → σ → IoCall → σ}
    {calls : List IoCall} {interrupted : Option Interruption} {state final : σ}
    (returned : transfer perform cut calls interrupted state = .ok final) : loop perform state calls = .ok final := by
  unfold transfer at returned
  split at returned
  · exact returned
  · split at returned
    · exact returned
    · obtain ⟨_, -, raised⟩ := bind_eq_ok_iff.mp returned
      cases raised

theorem contents_loop {calls : List IoCall} {buffer : List UInt8} {segments final : SegmentMap}
    (returned : loop (performWrite buffer) segments calls = .ok final) :
    contents final = calls.foldl (writeCall buffer) (contents segments) := by
  induction calls generalizing segments with
  | nil =>
    cases returned
    rfl
  | cons call rest ih =>
    obtain ⟨middle, here, later⟩ := bind_eq_ok_iff.mp returned
    have one : contents middle = writeCall buffer (contents segments) call := by
      cases call with
      | pwritev segmentId offset buffers =>
        cases here
        exact contents_update ..
      | _ =>
        cases here
        rfl
    rw [ih later, one, List.foldl_cons]

/-- A `write_entries` that returns leaves each block at its own extent. -/
theorem holds_write {s : SegmentFiles} {iovMax : ℕ} {entries : List SegmentWrite} {buffer : List UInt8}
    {interrupted : Option Interruption} {segments : SegmentMap}
    (returned : s.write iovMax entries buffer interrupted = .ok segments)
    (inside : ∀ entry ∈ entries, entry.blockId * s.store.config.blockSize + s.store.config.blockSize ≤ buffer.length)
    (apart : entries.Pairwise (ExtentsApart s.store.config.blockSize)) {entry : SegmentWrite}
    (member : entry ∈ entries) : Holds (contents segments entry.segmentId) entry.offset
      (readAt buffer (entry.blockId * s.store.config.blockSize) s.store.config.blockSize) := by
  cases entries with
  | nil => cases member
  | cons first rest =>
    simp only [Model.SegmentFiles.write] at returned
    split_ifs at returned with noBuffers
    set io : IoConfig := ⟨s.store.config.blockSize, buffer.length, iovMax⟩ with io_eq
    have insideView : ∀ entry ∈ first :: rest, Inside io entry.blockId := inside
    have plain : contents segments = (first :: rest).foldl (writeBlock io.blockSize buffer) (contents s.segments) := by
      rw [contents_loop (transfer_returned returned)]
      exact writeEntries_plain (Nat.pos_of_ne_zero noBuffers) insideView rfl _
    rw [plain]
    exact holds_writeBlocks insideView rfl apart member

/-- A `store_many` that returns has prepared, written and indexed a plan. -/
theorem storeMany_returned {s s' : SegmentFiles} {iovMax : ℕ} {keys : List OffloadKey} {buffer : List UInt8}
    {blockIds : List ℕ} {interrupted : Option Interruption}
    (returned : s.storeMany iovMax keys buffer blockIds interrupted = (.returned, s')) :
    ∃ plan db store segments, s.store.prepareStore s.db keys blockIds = .ok (plan, db, store) ∧
      (s.prepared plan db store).write iovMax plan.entries buffer interrupted = .ok segments ∧
      s' = Model.SegmentFiles.completed { s.prepared plan db store with segments := segments } plan true := by
  unfold Model.SegmentFiles.storeMany at returned
  split at returned
  · cases returned
  · next plan db store prepared =>
    dsimp only at returned
    split at returned
    · cases returned
    · next segments written =>
      cases returned
      exact ⟨plan, db, store, segments, prepared, written, rfl⟩

/-- The blocks of some keys are in the segment files, where the index says. -/
structure Stored (s : SegmentFiles) (issued : List Issue) (keys : List OffloadKey) (buffer : List UInt8)
    (blockIds : List ℕ) : Prop where
  afresh : ∀ key ∈ keys, ∃ location, s.db.blocks.get? key = some location ∧
    location.length = s.store.config.blockSize ∧ ∀ issue ∈ issued, location.extent.Disjoint issue.extent
  held : (∀ blockId ∈ blockIds, blockId * s.store.config.blockSize + s.store.config.blockSize ≤ buffer.length) →
    ∀ key ∈ keys, ∀ location, s.db.blocks.get? key = some location →
      ∃ blockId, blockIds[keys.idxOf key]? = some blockId ∧
        Holds (contents s.segments location.segmentId) location.offset
          (readAt buffer (blockId * s.store.config.blockSize) s.store.config.blockSize)

theorem extentsApart_of_disjoint {blockSize : ℕ} {first second : SegmentWrite}
    (disjoint : (first.extent blockSize).Disjoint (second.extent blockSize)) : ExtentsApart blockSize first second := by
  intro same
  rcases disjoint with elsewhere | before | after
  · exact absurd same elsewhere
  · exact .inl before
  · exact .inr after

theorem completeStore_config (store : SegmentStore) (db : Database) (plan : SegmentStorePlan) (success : Bool) :
    (store.completeStore db plan success).2.config = store.config := by
  unfold SegmentStore.completeStore
  split <;> rfl

/-- The row of each key of a plan, once the plan is completed, if the key had none. -/
theorem row_completed {s : SegmentFiles} {plan : SegmentStorePlan} {key : OffloadKey}
    (absent : s.db.blocks.get? key = none) (planned : ∃ entry ∈ plan.entries, entry.key = key) :
    ∃ entry ∈ plan.entries, entry.key = key ∧ (s.completed plan true).db.blocks.get? key =
      some (entry.location s.store.config.blockSize) := by
  obtain ⟨entry, member, same⟩ := planned
  have someEntry : (plan.entries.find? fun entry => decide (entry.key = key)).isSome :=
    List.find?_isSome.mpr ⟨entry, member, decide_eq_true same⟩
  obtain ⟨first, found⟩ := Option.isSome_iff_exists.mp someEntry
  refine ⟨first, List.mem_of_find?_eq_some found, by simpa using List.find?_some found, ?_⟩
  have indexed : (s.completed plan true).db = s.db.indexPlan s.store.config.blockSize plan := by
    have notEmpty : plan.entries.isEmpty = false := List.isEmpty_eq_false_iff.mpr (List.ne_nil_of_mem member)
    simp [Model.SegmentFiles.completed, SegmentStore.completeStore, notEmpty, Model.SegmentFiles.update]
  rw [indexed, Database.get?_indexPlan, absent, Option.none_or, found, Option.map_some]

/-- Storing keys that have no row puts each of them at an extent that was never issued. -/
theorem Inv.stored {s s' : SegmentFiles} (inv : Inv s) {iovMax : ℕ} {keys : List OffloadKey} {buffer : List UInt8}
    {blockIds : List ℕ} {interrupted : Option Interruption} (absent : ∀ key ∈ keys, s.db.blocks.get? key = none)
    (returned : s.storeMany iovMax keys buffer blockIds interrupted = (.returned, s')) :
    Stored s' s.issued keys buffer blockIds := by
  obtain ⟨plan, db, store, segments, prepared, written, rfl⟩ := storeMany_returned returned
  have store_eq := (prepareStore_cases prepared).1
  have config : store.config = s.store.config := by rw [store_eq, SegmentStore.getLocations_config]
  obtain ⟨fresh, apart⟩ := SharedStore.apart_of_prepared (s := shared s) inv.safe (show
    ((shared s).store ()).prepareStore (shared s).db keys blockIds = .ok (plan, db, store) from prepared)
  set middle : SegmentFiles := { s.prepared plan db store with segments := segments } with middle_eq
  have config' : (middle.completed plan true).store.config = s.store.config :=
    (completeStore_config ..).trans config
  have rows : ∀ key ∈ keys, ∃ entry ∈ plan.entries, entry.key = key ∧
      (middle.completed plan true).db.blocks.get? key = some (entry.location s.store.config.blockSize) := by
    intro key member
    have noRow : middle.db.blocks.get? key = none := by
      change db.blocks.get? key = none
      rw [prepareStore_blocks prepared]
      exact absent key member
    have uncached := inv.mirrors.uncached (absent key member)
    have planned := (prepareStore_plans prepared key).mpr ⟨member, uncached, absent key member⟩
    obtain ⟨entry, listed, same, row⟩ := row_completed noRow planned
    have blockSize : middle.store.config.blockSize = s.store.config.blockSize := congrArg SegmentConfig.blockSize config
    exact ⟨entry, listed, same, by rw [row, blockSize]⟩
  constructor
  · intro key member
    obtain ⟨entry, listed, rfl, row⟩ := rows key member
    exact ⟨_, row, by rw [config']; rfl, fun issue issued => fresh entry listed _ (.inl ⟨issue, issued, rfl⟩)⟩
  · rw [config']
    intro inside key member location found
    obtain ⟨entry, listed, rfl, row⟩ := rows key member
    rw [row] at found
    obtain rfl := Option.some.inj found
    have given := Placement.block_of_prepared prepared listed
    refine ⟨entry.blockId, given, ?_⟩
    have insideEntries : ∀ entry ∈ plan.entries,
        entry.blockId * s.store.config.blockSize + s.store.config.blockSize ≤ buffer.length :=
      fun entry listed => inside _ (List.mem_of_getElem? (Placement.block_of_prepared prepared listed))
    have held := holds_write written
    simp only [show (s.prepared plan db store).store.config = s.store.config from config] at held
    exact held insideEntries (apart.imp extentsApart_of_disjoint) listed

/-! ## The load after it -/

/-- The system calls of a load, if all of them go well. -/
theorem loop_of_readCalls {segments : SegmentMap} {calls : List IoCall} {buffer filled : List UInt8}
    (done : calls.foldlM (readCall segments) buffer = some filled) :
    loop (performRead segments) buffer calls = .ok filled := by
  induction calls generalizing buffer with
  | nil =>
    cases done
    rfl
  | cons call rest ih =>
    obtain ⟨middle, here, later⟩ := Option.bind_eq_some_iff.mp done
    refine bind_eq_ok_iff.mpr ⟨middle, ?_, ih later⟩
    cases call with
    | preadv segmentId offset buffers =>
      obtain ⟨file, found, complete⟩ := Option.bind_eq_some_iff.mp here
      obtain ⟨long, same⟩ := Option.ite_none_right_eq_some.mp complete
      simp only [performRead, found, long, if_true]
      exact congrArg Except.ok (Option.some.inj same)
    | raise error => cases here
    | _ => exact congrArg Except.ok (Option.some.inj here)

/-- Only a file that exists holds something. -/
theorem file_of_holds {segments : SegmentMap} {segmentId offset : ℕ} {data : List UInt8} (positive : 0 < data.length)
    (holds : Holds (contents segments segmentId) offset data) :
    ∃ file, segments segmentId = some file ∧ Holds file offset data ∧ offset + data.length ≤ file.length := by
  have last : data.length - 1 < data.length := Nat.sub_one_lt_of_lt positive
  have inFile := (List.getElem?_eq_some_iff.mp (holds (List.getElem?_eq_getElem last))).1
  cases found : segments segmentId with
  | none =>
    rw [contents, found] at inFile
    cases inFile
  | some file =>
    rw [contents, found, Option.getD_some] at holds inFile
    exact ⟨file, rfl, holds, by omega⟩

section Loads

variable {s : SegmentFiles} {issued : List Issue} {keys asked : List OffloadKey} {source buffer : List UInt8}
  {blockIds places : List ℕ}

/-- The file of a stored key, and its block in there. -/
theorem Stored.file (stored : Stored s issued keys source blockIds)
    (inside : ∀ blockId ∈ blockIds, blockId * s.store.config.blockSize + s.store.config.blockSize ≤ source.length)
    {key : OffloadKey} (member : key ∈ keys) {location : SegmentLocation}
    (row : s.db.blocks.get? key = some location) :
    ∃ blockId file, blockIds[keys.idxOf key]? = some blockId ∧ s.segments location.segmentId = some file ∧
      readAt file location.offset s.store.config.blockSize =
        readAt source (blockId * s.store.config.blockSize) s.store.config.blockSize ∧
      location.offset + s.store.config.blockSize ≤ file.length := by
  obtain ⟨blockId, given, held⟩ := stored.held inside key member location row
  have length : (readAt source (blockId * s.store.config.blockSize) s.store.config.blockSize).length =
      s.store.config.blockSize := by
    have fit := inside blockId (List.mem_of_getElem? given)
    rw [length_readAt]
    omega
  obtain ⟨file, found, holds, bound⟩ := file_of_holds (by rw [length]; exact s.store.config.blockSize_pos) held
  have read := readAt_of_holds holds
  rw [length] at read bound
  exact ⟨blockId, file, given, found, read, bound⟩

/-- The rows of stored keys can be read. -/
theorem Stored.readable (stored : Stored s issued keys source blockIds)
    (inside : ∀ blockId ∈ blockIds, blockId * s.store.config.blockSize + s.store.config.blockSize ≤ source.length)
    (among : ∀ key ∈ asked, key ∈ keys) {found : Option SegmentLocation}
    (member : found ∈ asked.map s.db.blocks.get?) :
    ∃ location, found = some location ∧ location.length = s.store.config.blockSize ∧
      Readable s.segments location.segmentId location.offset s.store.config.blockSize := by
  obtain ⟨key, inAsked, rfl⟩ := List.mem_map.mp member
  obtain ⟨location, row, length, -⟩ := stored.afresh key (among key inAsked)
  obtain ⟨blockId, file, -, found, -, bound⟩ := stored.file inside (among key inAsked) row
  exact ⟨location, row, length, file, found, bound⟩

/-- A load that has a location for every key and whose system calls go well returns. -/
theorem loadLocated_returned {maxBuffers : ℕ} (buffers : 0 < maxBuffers) {locations : List (Option SegmentLocation)}
    (same : asked.length = locations.length) (present : ∀ found ∈ locations, found.isSome) {filled : List UInt8}
    (done : (Model.loadMany ⟨s.store.config.blockSize, buffer.length, maxBuffers⟩ asked places locations).calls.foldlM
      (readCall s.segments) buffer = some filled) :
    s.loadLocated maxBuffers asked buffer places locations none = (.returned, filled, s) := by
  have complete : locations.filter Option.isNone = [] := by
    refine List.filter_eq_nil_iff.mpr fun found member absent => ?_
    have located := present found member
    rw [Option.isNone_iff_eq_none.mp absent] at located
    cases located
  have returned : s.read maxBuffers asked buffer places locations none = .ok filled := by
    rw [Model.SegmentFiles.read, if_neg fun both => buffers.ne' both.1]
    exact loop_of_readCalls done
  simp only [Model.SegmentFiles.loadLocated, complete, returned, if_neg (not_not.mpr same), ne_eq, not_true, if_false]

/-- A load of stored keys returns with their blocks. -/
theorem Inv.loads (inv : Inv s) (stored : Stored s issued keys source blockIds)
    (inside : ∀ blockId ∈ blockIds, blockId * s.store.config.blockSize + s.store.config.blockSize ≤ source.length)
    {iovMax : ℕ} {ioBatchBlocks : Option ℕ} (buffers : 0 < bufferBound iovMax ioBatchBlocks)
    (among : ∀ key ∈ asked, key ∈ keys) (same : asked.length = places.length) (distinct : places.Nodup)
    (fits : ∀ place ∈ places, place * s.store.config.blockSize + s.store.config.blockSize ≤ buffer.length)
    {locations : Option (List (Option SegmentLocation))}
    (located : ∀ found ∈ locations, found = (s.store.getLocations s.db asked).1) :
    ∃ filled s', s.loadMany iovMax ioBatchBlocks asked buffer places locations none = (.returned, filled, s') ∧
      ∀ (i : ℕ) (key : OffloadKey) (place : ℕ), asked[i]? = some key → places[i]? = some place →
        ∃ blockId, blockIds[keys.idxOf key]? = some blockId ∧
          readAt filled (place * s.store.config.blockSize) s.store.config.blockSize =
            readAt source (blockId * s.store.config.blockSize) s.store.config.blockSize := by
  set rows := asked.map s.db.blocks.get? with rows_eq
  have answers : (s.store.getLocations s.db asked).1 = rows := inv.mirrors.getLocations_fst asked
  set io : IoConfig := ⟨s.store.config.blockSize, buffer.length, bufferBound iovMax ioBatchBlocks⟩ with io_eq
  have sameRows : asked.length = rows.length := (List.length_map ..).symm
  have view : ∀ place ∈ places, Inside io place := fits
  have readable : ∀ found ∈ rows, ∃ location, found = some location ∧ location.length = io.blockSize ∧
      Readable s.segments location.segmentId location.offset io.blockSize :=
    fun found member => stored.readable inside among member
  have succeeds : ((Model.loadMany io asked places rows).calls.foldlM (readCall s.segments) buffer).isSome :=
    (isSome_load_iff buffers s.store.config.blockSize_pos same sameRows view).mpr readable
  obtain ⟨filled, done⟩ := Option.isSome_iff_exists.mp succeeds
  have present : ∀ found ∈ rows, found.isSome := by
    intro found member
    obtain ⟨location, rfl, -⟩ := readable found member
    rfl
  obtain ⟨s', returned⟩ : ∃ s', s.loadMany iovMax ioBatchBlocks asked buffer places locations none =
      (.returned, filled, s') := by
    unfold Model.SegmentFiles.loadMany
    rw [if_neg (not_not.mpr same)]
    cases locations with
    | none =>
      dsimp only
      rw [answers]
      exact ⟨_, loadLocated_returned (s := s.lookUp asked) buffers sameRows present done⟩
    | some found =>
      obtain rfl := (located found rfl).trans answers
      exact ⟨_, loadLocated_returned buffers sameRows present done⟩
  refine ⟨filled, s', returned, fun i key place listed placed => ?_⟩
  have member := among key (List.mem_of_getElem? listed)
  obtain ⟨location, row, -⟩ := stored.afresh key member
  obtain ⟨blockId, file, given, found, bytes, -⟩ := stored.file inside member row
  have inRows : rows[i]? = some (some location) := by rw [rows_eq, List.getElem?_map, listed, Option.map_some, row]
  obtain ⟨file', found', filledBlock⟩ :=
    (load_filled buffers same sameRows distinct view rfl done).1 i location place inRows placed
  obtain rfl : file = file' := Option.some.inj (found.symm.trans found')
  exact ⟨blockId, given, filledBlock.trans bytes⟩

end Loads

/-! ## The whole story -/

/-- A load that is refused changes no table, no segment file and no buffer. A load that fails while it reads leaves
none of its keys indexed or cached and all else as it was; and when some of its keys are next stored, each gets an
extent that was never issued, from which a load then gets the new bytes. -/
theorem failed_load_heals {db : Database} (noMetadata : db.metadata.items = []) {config : SegmentConfig}
    {segments : SegmentMap} {past : List SegmentCall} {s : SegmentFiles}
    (run : Run (Steps Model.SegmentFiles.step) (.init db config segments) past s) (iovMax : ℕ)
    (ioBatchBlocks : Option ℕ) (keys : List OffloadKey) (buffer : List UInt8) (blockIds : List ℕ)
    (locations : Option (List (Option SegmentLocation))) (interrupted : Option Interruption) :
    let result := s.loadMany iovMax ioBatchBlocks keys buffer blockIds locations interrupted
    let left := result.2.2
    (∀ error, result.1 = .refused error →
      left.db = s.db ∧ left.segments = s.segments ∧ result.2.1 = buffer) ∧
    (result.1 = .failed → Deleted s keys left ∧
      ∀ between middle, Run (Steps Model.SegmentFiles.step) left between middle →
        (∀ call ∈ between, ∀ key ∈ keys, ¬Stores key call) →
        ∀ iovMax stored source given interrupted s', (∀ key ∈ stored, key ∈ keys) →
          middle.storeMany iovMax stored source given interrupted = (.returned, s') →
          (∀ key ∈ stored, ∃ location, s'.db.blocks.get? key = some location ∧
            ∀ issue ∈ middle.issued, location.extent.Disjoint issue.extent) ∧
          ((∀ block ∈ given, block * s'.store.config.blockSize + s'.store.config.blockSize ≤ source.length) →
            ∀ iovMax ioBatchBlocks asked buffer places locations, 0 < bufferBound iovMax ioBatchBlocks →
              (∀ key ∈ asked, key ∈ stored) → asked.length = places.length → places.Nodup →
              (∀ place ∈ places, place * s'.store.config.blockSize + s'.store.config.blockSize ≤ buffer.length) →
              (∀ found ∈ locations, found = (s'.store.getLocations s'.db asked).1) →
              ∃ filled s'', s'.loadMany iovMax ioBatchBlocks asked buffer places locations none =
                  (.returned, filled, s'') ∧
                ∀ (i : ℕ) (key : OffloadKey) (place : ℕ), asked[i]? = some key → places[i]? = some place →
                  ∃ block, given[stored.idxOf key]? = some block ∧
                    readAt filled (place * s'.store.config.blockSize) s'.store.config.blockSize =
                      readAt source (block * s'.store.config.blockSize) s'.store.config.blockSize)) := by
  intro result left
  have inv : Inv s := (inv_init config segments noMetadata).run run
  have invLeft : Inv left := inv.loadMany iovMax ioBatchBlocks keys buffer blockIds locations interrupted
  obtain ⟨looked, origin, ended⟩ := loadMany_cases s iovMax ioBatchBlocks keys buffer blockIds locations interrupted
  have same : looked.db = s.db ∧ looked.segments = s.segments := by
    rcases origin with rfl | rfl <;> exact ⟨rfl, rfl⟩
  rcases ended with ⟨error, ended⟩ | ⟨filled, ended⟩ | ⟨filled, ended⟩
  · rw [show result = (.refused error, buffer, looked) from ended, show left = looked from congrArg (·.2.2) ended]
    exact ⟨fun _ _ => ⟨same.1, same.2, rfl⟩, nofun⟩
  · rw [show result = (.returned, filled, looked) from ended]
    exact ⟨nofun, nofun⟩
  · have deleted : Deleted s keys left := by
      rw [show left = looked.deleted keys from congrArg (·.2.2) ended]
      rcases origin with rfl | rfl
      · exact inv.failed keys
      · exact ((inv.lookUp keys).failed keys).of_lookUp
    rw [show result = (.failed, filled, looked.deleted keys) from ended]
    refine ⟨nofun, fun _ => ⟨deleted, ?_⟩⟩
    intro between middle later others iovMax stored source given interrupted s' among returned
    have invMiddle : Inv middle := invLeft.run later
    have absent : ∀ key ∈ stored, middle.db.blocks.get? key = none := by
      intro key member
      have inKeys := among key member
      exact absent_run later (fun call inside => others call inside key inKeys) (deleted.rows key inKeys)
    have stores : Stored s' middle.issued stored source given := invMiddle.stored absent returned
    have invStored : Inv s' := by
      have kept := invMiddle.storeMany iovMax stored source given interrupted
      rwa [returned] at kept
    refine ⟨fun key member => ?_, fun inside iovMax ioBatchBlocks asked buffer places locations buffers among same
      distinct fits located => invStored.loads stores inside buffers among same distinct fits located⟩
    obtain ⟨location, row, -, afresh⟩ := stores.afresh key member
    exact ⟨location, row, afresh⟩

/-- Two blocks are stored, and then both of their files are truncated. -/
def truncated : List SegmentCall :=
  [.storeMany 1 [[1], [2]] [1, 2, 3, 4, 5, 6, 7, 8] [0, 1] none, .alterFiles fun _ => some [1, 2]]

theorem failed_load_heals_truncated : ∃ s left s' : SegmentFiles,
    replay Model.SegmentFiles.step (.init .empty (SharedStore.mixedConfig false) fun _ => none) truncated = some s ∧
    (s.loadMany 1 (some 2) [[2], [1]] (List.replicate 8 0) [1, 0] none none).2.2 = left ∧ Deleted s [[2], [1]] left ∧
    (left.storeMany 1 [[1]] [9, 9, 9, 9] [0] none) = (.returned, s') ∧
    (∃ location, s'.db.blocks.get? [1] = some location ∧ ∀ issue ∈ left.issued, location.extent.Disjoint issue.extent) ∧
    ∃ filled s'', s'.loadMany 1 none [[1]] (List.replicate 8 0) [1] none none = (.returned, filled, s'') ∧
      readAt filled 4 4 = [9, 9, 9, 9] := by
  have executed : ((replay Model.SegmentFiles.step
      (.init .empty (SharedStore.mixedConfig false) fun _ => none) truncated).map fun s =>
        let failed := s.loadMany 1 (some 2) [[2], [1]] (List.replicate 8 0) [1, 0] none none
        let stored := failed.2.2.storeMany 1 [[1]] [9, 9, 9, 9] [0] none
        (failed.1, stored.1, stored.2.store.config.blockSize)) = some (.failed, .returned, 4) := by decide
  obtain ⟨s, replayed, ends⟩ := Option.map_eq_some_iff.mp executed
  simp only [Prod.mk.injEq] at ends
  obtain ⟨failed, returned, blockSize⟩ := ends
  obtain ⟨deleted, next⟩ := (failed_load_heals rfl (.of_replay replayed) 1 (some 2) [[2], [1]] (List.replicate 8 0)
    [1, 0] none none).2 failed
  set left := (s.loadMany 1 (some 2) [[2], [1]] (List.replicate 8 0) [1, 0] none none).2.2 with left_eq
  set s' := (left.storeMany 1 [[1]] [9, 9, 9, 9] [0] none).2 with stored_eq
  have stores : left.storeMany 1 [[1]] [9, 9, 9, 9] [0] none = (.returned, s') := Prod.ext returned rfl
  obtain ⟨afresh, loads⟩ := next [] left .nil (by simp) 1 [[1]] [9, 9, 9, 9] [0] none s' (by simp) stores
  rw [blockSize] at loads
  obtain ⟨filled, s'', loaded, bytes⟩ := loads (by decide) 1 none [[1]] (List.replicate 8 0) [1] none (by decide)
    (by simp) rfl (by simp) (by decide) (by simp)
  obtain ⟨block, given, read⟩ := bytes 0 [1] 1 rfl rfl
  obtain rfl : 0 = block := Option.some.inj given
  exact ⟨s, left, s', replayed, rfl, deleted, stores, afresh [1] (List.mem_singleton_self _), filled, s'', loaded, read⟩

end SegmentFiles

end KVTiering.Soundness
