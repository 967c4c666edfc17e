import KVTiering.Soundness.LookupFreshness
import KVTiering.Model.TierLoad

/-! # Lookups and loads agree

`batch_lookup` and `submit_load` each find out by themselves whether a block is in a segment or in a file of its
own. In a state of the tier both resolve a key to the same source: its row if it has one, since the cache mirrors
the rows, and its block file otherwise.
-/

namespace KVTiering.Soundness

open Model

/-- Where a load takes a block from. -/
inductive LoadSource where
  | extent (location : SegmentLocation)
  | file (path : String)
deriving DecidableEq, Repr

/-- The blocks that a task reads, each with its source. -/
def LoadTask.reads (fileName : OffloadKey → String) : LoadTask → List (OffloadKey × ℕ × LoadSource)
  | .loadBlock key blockId => [(key, blockId, .file (fileName key))]
  | .loadMany chunk => chunk.map fun entry => (entry.1, entry.2.1, .extent entry.2.2)

namespace FileSystemTier

open Model.FileSystemTier

variable {fileName : OffloadKey → String} {tier : FileSystemTier}

/-- The committed extent of a key that is indexed, and its block file otherwise. -/
def source (fileName : OffloadKey → String) (tier : FileSystemTier) (key : OffloadKey) : LoadSource :=
  match row tier key with
  | some location => .extent location
  | none => .file (fileName key)

/-- The source is there to be read: the extent is that of a row, or the file exists. -/
def Present (tier : FileSystemTier) (key : OffloadKey) : LoadSource → Prop
  | .extent location => row tier key = some location
  | .file path => path ∈ tier.files

theorem present_source_iff (key : OffloadKey) :
    Present tier key (source fileName tier key) ↔ Durable fileName tier key := by
  rw [Durable, hasRow_iff_isSome, source]
  cases found : row tier key with
  | some location => simp [Present, found]
  | none => simp [Present]

/-! ## Lookups -/

theorem zip_batchFileLookup (indices : List ℕ) (files : Finset String) (path : ℕ → String) :
    indices.zip (batchFileLookup files (indices.map path)) =
      indices.map fun index => (index, decide (path index ∈ files)) := by
  induction indices with
  | nil => rfl
  | cons index rest ih =>
    rw [List.map_cons, List.map_cons, ← ih]
    rfl

/-- The rows of some keys, with the files of those without a row put in. -/
theorem patched_eq (fileName : OffloadKey → String) {keys : List OffloadKey} {indices : List ℕ}
    (missing : ∀ index, index ∈ indices ↔ ∃ key, keys[index]? = some key ∧ ¬HasRow tier key) :
    indices.foldl (fun hits index => hits.set index (decide (fileName (keys.getD index []) ∈ tier.files)))
      (keys.map fun key => decide (HasRow tier key)) = keys.map fun key => decide (Durable fileName tier key) := by
  apply List.ext_getElem?
  intro i
  simp only [getElem?_foldl_set, missing, List.length_map, List.getElem?_map, Durable]
  cases found : keys[i]? with
  | none => simp
  | some key =>
    obtain ⟨inside, rfl⟩ := List.getElem?_eq_some_iff.mp found
    by_cases indexed : HasRow tier keys[i] <;> simp [indexed, inside, List.getD_eq_getElem?_getD]

/-- `batch_lookup` tells of each key whether it has a row or a file. -/
theorem wholeBatchLookup_eq (mirrors : ∀ segments ∈ tier.segmentStore, Mirrors segments.store segments.db)
    (keys : List OffloadKey) :
    wholeBatchLookup fileName tier keys = keys.map fun key => decide (Durable fileName tier key) := by
  rw [wholeBatchLookup]
  split
  · next segments store =>
    have hits : (segments.store.containsMany segments.db keys).1 = keys.map fun key => decide (HasRow tier key) := by
      rw [SegmentStore.containsMany]
      change (segments.store.getLocations segments.db keys).1.map Option.isSome = _
      rw [(mirrors segments store).getLocations_fst, List.map_map]
      refine List.map_congr_left fun key _ => ?_
      simp [hasRow_iff store, Dict.contains]
    have missing : ∀ index, index ∈ ((keys.map fun key => decide (HasRow tier key)).zipIdx.filter
        fun item => !item.1).map Prod.snd ↔ ∃ key, keys[index]? = some key ∧ ¬HasRow tier key := by
      intro index
      simp [List.mem_zipIdx_iff_getElem?]
    have patched := patched_eq fileName missing
    rw [hits]
    dsimp only
    split
    · next none =>
      rw [none] at patched
      exact patched
    · rw [zip_batchFileLookup, List.foldl_map]
      exact patched
  · next noStore =>
    rw [batchFileLookup, List.map_map]
    refine List.map_congr_left fun key _ => ?_
    simp [Durable, not_hasRow noStore]

/-- The files of the missing keys are tested one by one. -/
theorem checkFiles_run {frame : BatchLookup} (asked : tier.batchLookup = some frame) :
    Run (Steps (step fileName)) tier (List.replicate frame.missing.length .checkFile)
      { tier with batchLookup := some ⟨frame.missing.foldl (fun hits item =>
          hits.set item.2 (decide (fileName item.1 ∈ tier.files))) frame.segmentHits, []⟩ } := by
  obtain ⟨segmentHits, missing⟩ := frame
  induction missing generalizing tier segmentHits with
  | nil =>
    change Run _ tier [] { tier with batchLookup := some ⟨segmentHits, []⟩ }
    rw [← asked]
    exact .nil
  | cons item rest ih =>
    let middle := { tier with
      batchLookup := some ⟨segmentHits.set item.2 (decide (fileName item.1 ∈ tier.files)), rest⟩ }
    have checked : step fileName tier .checkFile = some middle := by simp only [step, checkFile, asked, middle]
    have later := @ih middle _ rfl
    exact (Run.single checked).append later

/-- The calls of the worker come to the same answers when no other operation comes in between. -/
theorem wholeBatchLookup_run (inv : Inv tier) {tier' : FileSystemTier} (started : tier.startBatchLookup = some tier') :
    ∃ count tier'', Run (Steps (step fileName)) tier' (List.replicate count .checkFile) tier'' ∧
      tier''.batchLookup = some ⟨wholeBatchLookup fileName tier ((group tier).map LookupQuery.key), []⟩ := by
  obtain ⟨frame, starts, rfl⟩ := startBatchLookup_cases inv started
  refine ⟨_, _, checkFiles_run rfl, congrArg some (congrArg (BatchLookup.mk · []) ?_)⟩
  set keys := (group tier).map LookupQuery.key with keys_eq
  have hits : frame.segmentHits = keys.map fun key => decide (HasRow tier key) := by
    rw [starts.segmentHits, keys_eq, List.map_map]
    rfl
  have missing : ∀ index, index ∈ frame.missing.map Prod.snd ↔ ∃ key, keys[index]? = some key ∧ ¬HasRow tier key := by
    intro index
    simp only [starts.missing, List.mem_map, List.mem_filter, List.mem_zipIdx_iff_getElem?, hits]
    constructor
    · rintro ⟨⟨key, index⟩, ⟨found, noRow⟩, rfl⟩
      rw [List.getD_eq_getElem?_getD, List.getElem?_map, found] at noRow
      exact ⟨key, found, by simpa using noRow⟩
    · rintro ⟨key, found, noRow⟩
      exact ⟨(key, index), ⟨found, by simpa [List.getD_eq_getElem?_getD, found] using noRow⟩, rfl⟩
  rw [wholeBatchLookup_eq inv.mirrors, ← patched_eq fileName missing, List.foldl_map, hits]
  refine List.foldl_ext _ _ _ fun hits item member => ?_
  rw [starts.missing] at member
  have found := List.mem_zipIdx_iff_getElem?.mp (List.mem_filter.mp member).1
  rw [List.getD_eq_getElem?_getD, found]
  rfl

/-! ## Loads -/

/-- The source of a block, given its location if there is one. -/
def sourceAt (fileName : OffloadKey → String) (key : OffloadKey) : Option SegmentLocation → LoadSource
  | some location => .extent location
  | none => .file (fileName key)

/-- The tasks of a load take each block once, from its location or else from its file. -/
theorem perm_reads (keys : List OffloadKey) (blockIds : List ℕ) (locations : List (Option SegmentLocation)) :
    ((segmentLoads keys blockIds locations).flatMap (LoadTask.reads fileName)).Perm
      ((keys.zip (blockIds.zip locations)).map fun item => (item.1, item.2.1, sourceAt fileName item.1 item.2.2)) := by
  set items := keys.zip (blockIds.zip locations) with items_eq
  let read := fun item : OffloadKey × ℕ × Option SegmentLocation =>
    (item.1, item.2.1, sourceAt fileName item.1 item.2.2)
  have files : ((items.filter fun item => item.2.2.isNone).map fun item =>
      LoadTask.loadBlock item.1 item.2.1).flatMap (LoadTask.reads fileName) =
        (items.filter fun item => item.2.2.isNone).map read := by
    rw [List.flatMap_map, ← List.flatMap_pure_eq_map]
    refine List.flatMap_congr fun item member => ?_
    have absent := Option.isNone_iff_eq_none.mp (List.mem_filter.mp member).2
    simp [LoadTask.reads, read, absent, sourceAt]
  have extents : (((segmentEntries keys blockIds locations).values.map LoadTask.loadMany).flatMap
      (LoadTask.reads fileName)).Perm ((items.filter fun item => !item.2.2.isNone).map read) := by
    have located : ∀ items : List (OffloadKey × ℕ × Option SegmentLocation),
        (items.filterMap fun item => item.2.2.map fun location => (item.1, item.2.1, location)).map (fun entry =>
          (entry.1, entry.2.1, LoadSource.extent entry.2.2)) =
            (items.filter fun item => !item.2.2.isNone).map read := by
      intro items
      induction items with
      | nil => rfl
      | cons item rest ih =>
        obtain ⟨key, blockId, location⟩ := item
        cases location with
        | none => exact ih
        | some location =>
          simp only [List.filterMap_cons, Option.map_some, List.map_cons, ih]
          rfl
    rw [List.flatMap_map, ← located items]
    simp only [LoadTask.reads]
    rw [← List.map_flatMap, List.flatMap_id']
    exact (Dict.perm_groupOn ..).map _
  rw [segmentLoads, ← items_eq, List.flatMap_append, files]
  refine (extents.append_left _).trans ?_
  rw [← List.map_append]
  exact (List.filter_append_perm _ _).map read

/-- Each task of a load reads from one segment. -/
theorem segment_of_loadMany {keys : List OffloadKey} {blockIds : List ℕ} {locations : List (Option SegmentLocation)}
    {chunk : List (OffloadKey × ℕ × SegmentLocation)}
    (member : .loadMany chunk ∈ segmentLoads keys blockIds locations) :
    ∃ segmentId, ∀ entry ∈ chunk, entry.2.2.segmentId = segmentId := by
  rcases List.mem_append.mp member with file | segment
  · obtain ⟨item, _, same⟩ := List.mem_map.mp file
    cases same
  · obtain ⟨group, listed, same⟩ := List.mem_map.mp segment
    cases same
    obtain ⟨_, segmentId, rfl⟩ := Dict.mem_values_groupOn.mp listed
    exact ⟨segmentId, fun entry inGroup => of_decide_eq_true (List.mem_filter.mp inGroup).2⟩

/-- The tasks of a load read every block once, from the source of its key. -/
theorem perm_submitLoad (fileName : OffloadKey → String)
    (mirrors : ∀ segments ∈ tier.segmentStore, Mirrors segments.store segments.db)
    (keys : List OffloadKey) (blockIds : List ℕ) :
    ((submitLoad tier keys blockIds).flatMap (LoadTask.reads fileName)).Perm
      ((keys.zip blockIds).map fun item => (item.1, item.2, source fileName tier item.1)) := by
  rw [submitLoad]
  split
  · next segments store =>
    refine (perm_reads ..).trans (List.Perm.of_eq ?_)
    rw [(mirrors segments store).getLocations_fst]
    have sourced : ∀ key, sourceAt fileName key (segments.db.blocks.get? key) = source fileName tier key := by
      intro key
      rw [source, row, store, Option.bind_some]
      cases segments.db.blocks.get? key <;> rfl
    induction keys generalizing blockIds with
    | nil => rfl
    | cons key rest ih =>
      cases blockIds with
      | nil => rfl
      | cons blockId blockIds =>
        simp only [List.map_cons, List.zip_cons_cons, ih, sourced]
  · next noStore =>
    refine List.Perm.of_eq ?_
    rw [List.flatMap_map, ← List.flatMap_pure_eq_map]
    refine List.flatMap_congr fun item _ => ?_
    simp [LoadTask.reads, source, row, noStore]

/-- The workers of the cluster run these tasks. -/
theorem tasks_submitLoad (io : IoConfig) (keys : List OffloadKey) (blockIds : List ℕ) :
    (submitLoad tier keys blockIds).map (LoadTask.task io) = tier.segmentStore.elim (fileLoadTasks io keys blockIds)
      fun segments => segmentLoadTasks io keys blockIds (segments.store.getLocations segments.db keys).1 := by
  rw [submitLoad]
  split
  · next store =>
    rw [store, Option.elim_some, segmentLoads, List.map_append, List.map_map, List.map_map]
    rfl
  · next noStore =>
    rw [noStore, Option.elim_none, List.map_map]
    rfl

end FileSystemTier

open FileSystemTier

/-- In every state of a tier, `batch_lookup` tells of each key whether the source that `submit_load` would read it
from is there, and `submit_load` puts every block into one task, each segment task within one segment. -/
theorem lookup_agrees_with_load {fileName : OffloadKey → String} {segments : Option (Database × SegmentConfig)}
    {files : Finset String} {events : List TierEvent} {tier : FileSystemTier}
    (run : Run (Steps (FileSystemTier.step fileName)) (.init segments files) events tier) (keys : List OffloadKey)
    (blockIds : List ℕ) (parallel : keys.length = blockIds.length) :
    let tasks := tier.submitLoad keys blockIds
    let answers := tier.wholeBatchLookup fileName keys
    (tasks.flatMap (LoadTask.reads fileName)).Perm
      ((keys.zip blockIds).map fun item => (item.1, item.2, source fileName tier item.1)) ∧
    (∀ chunk, .loadMany chunk ∈ tasks → ∃ segmentId, ∀ entry ∈ chunk, entry.2.2.segmentId = segmentId) ∧
    answers.length = keys.length ∧
    ∀ (i : ℕ) (key : OffloadKey), keys[i]? = some key →
      (∃ task ∈ tasks, ∃ read ∈ LoadTask.reads fileName task, read.1 = key) ∧
      ∀ task ∈ tasks, ∀ read ∈ LoadTask.reads fileName task, read.1 = key →
        (answers[i]? = some true ↔ Present tier key read.2.2) := by
  have inv := run_inv run
  have perm := perm_submitLoad fileName inv.mirrors keys blockIds
  intro tasks answers
  have answered : answers = keys.map fun key => decide (Durable fileName tier key) :=
    wholeBatchLookup_eq inv.mirrors keys
  refine ⟨perm, fun chunk member => ?_, ?_, fun i key asked => ⟨?_, fun task made read listed same => ?_⟩⟩
  · simp only [tasks, submitLoad] at member
    split at member
    · exact segment_of_loadMany member
    · obtain ⟨item, _, absurd⟩ := List.mem_map.mp member
      cases absurd
  · rw [answered, List.length_map]
  · have inside := (List.getElem?_eq_some_iff.mp asked).1
    have placed : (key, blockIds[i]) ∈ keys.zip blockIds :=
      List.mem_iff_getElem?.mpr ⟨i, List.getElem?_zip_eq_some.mpr ⟨asked, List.getElem?_eq_getElem (by omega)⟩⟩
    obtain ⟨task, made, listed⟩ := List.mem_flatMap.mp (perm.mem_iff.mpr (List.mem_map_of_mem placed))
    exact ⟨task, made, _, listed, rfl⟩
  · obtain ⟨item, _, rfl⟩ := List.mem_map.mp (perm.mem_iff.mp (List.mem_flatMap.mpr ⟨task, made, listed⟩))
    obtain rfl : item.1 = key := same
    rw [present_source_iff, answered, List.getElem?_map, asked]
    simp

/-- A key with a row, one with a file, one with both and one with neither. -/
def mixedTier : List TierEvent :=
  [.store (.prepareStore [[1], [3]] [0, 1]), .writeFile [2], .writeFile [3],
    .store (.completeStore ⟨[⟨[1], 0, 0, 0⟩, ⟨[3], 1, 0, 1⟩]⟩ true)]

theorem lookup_agrees_with_load_mixedTier : ∃ tier : FileSystemTier,
    replay (FileSystemTier.step keyName) (.init emptyStore ∅) mixedTier = some tier ∧
      tier.wholeBatchLookup keyName [[3], [4], [2], [1], [2]] = [true, false, true, true, true] ∧
      ∀ chunk, .loadMany chunk ∈ tier.submitLoad [[3], [4], [2], [1], [2]] [4, 3, 2, 1, 0] →
        ∃ segmentId, ∀ entry ∈ chunk, entry.2.2.segmentId = segmentId := by
  have executed : ((replay (FileSystemTier.step keyName) (.init emptyStore ∅) mixedTier).map fun tier =>
      tier.wholeBatchLookup keyName [[3], [4], [2], [1], [2]]) = some [true, false, true, true, true] := by decide
  obtain ⟨tier, replayed, answers⟩ := Option.map_eq_some_iff.mp executed
  exact ⟨tier, replayed, answers,
    (lookup_agrees_with_load (Run.of_replay replayed) [[3], [4], [2], [1], [2]] [4, 3, 2, 1, 0] rfl).2.1⟩

end KVTiering.Soundness
