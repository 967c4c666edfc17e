import KVTiering.Data.Dict
import KVTiering.Data.Frontier
import KVTiering.Data.Lists
import Mathlib.Data.Finset.Basic
import Mathlib.Data.List.MinMax

/-! # The segment store and its index

Blocks are appended to large segment files; an SQLite database shared by every process on the same
root directory records where. A `Database` is what the two tables hold, a `SegmentStore` is what one
process keeps in memory: its constructor arguments and the cache of positive lookups. Each operation
below is one critical section of the source and returns the tables and the cache it leaves behind.
Numbers read back from the tables are natural, as only such numbers are ever written to them.
-/

namespace KVTiering.Model

/-- Keys are plain byte strings. -/
abbrev OffloadKey := List UInt8

/-- What the store raises to its caller. -/
inductive StoreError where
  | valueError (message : String)
  | fileNotFoundError (message : String)
  | osError (message : String)
deriving DecidableEq, Repr

structure SegmentLocation where
  segmentId : ℕ
  offset : ℕ
  length : ℕ
deriving DecidableEq, Repr

structure SegmentWrite where
  key : OffloadKey
  segmentId : ℕ
  offset : ℕ
  blockId : ℕ
deriving DecidableEq, Repr

structure SegmentStorePlan where
  entries : List SegmentWrite
deriving DecidableEq, Repr

/-- The bytes of a segment that a row of the index names. -/
def SegmentLocation.extent (location : SegmentLocation) : Extent :=
  ⟨location.segmentId, location.offset, location.length⟩

/-- The bytes of a segment that a planned write of one block occupies. -/
def SegmentWrite.extent (entry : SegmentWrite) (blockSize : ℕ) : Extent :=
  ⟨entry.segmentId, entry.offset, blockSize⟩

/-- The row that completing a planned write adds to the index. -/
def SegmentWrite.location (entry : SegmentWrite) (blockSize : ℕ) : SegmentLocation :=
  ⟨entry.segmentId, entry.offset, blockSize⟩

/-- The attributes set by the constructor once its checks have passed. -/
structure SegmentConfig where
  blockSize : ℕ
  segmentSizeBytes : ℕ
  segmentShards : ℕ
  blockSize_pos : 0 < blockSize
  blockSize_le : blockSize ≤ segmentSizeBytes
  blockSize_dvd : blockSize ∣ segmentSizeBytes
  segmentShards_pos : 0 < segmentShards

/-- `SegmentStore.__init__`: the checks on the arguments, and the rounding to whole blocks. -/
def SegmentConfig.init (blockSize segmentSizeBytes segmentShards : ℤ) : Except StoreError SegmentConfig :=
  if noBlock : blockSize ≤ 0 then .error (.valueError "block_size must be greater than zero")
  else if small : segmentSizeBytes < blockSize then
    .error (.valueError "segment_size_bytes must be at least one block")
  else if noShard : segmentShards ≤ 0 then
    .error (.valueError "segment_shards must be greater than zero")
  else .ok {
    blockSize := blockSize.toNat
    segmentSizeBytes := segmentSizeBytes.toNat / blockSize.toNat * blockSize.toNat
    segmentShards := segmentShards.toNat
    blockSize_pos := by omega
    blockSize_le := Nat.le_mul_of_pos_left _ (Nat.div_pos (by omega) (by omega))
    blockSize_dvd := Nat.dvd_mul_left _ _
    segmentShards_pos := by omega }

/-- The names used in the `metadata` table: those of the single-stream format and the current ones. -/
inductive MetadataName where
  | segmentId
  | segmentOffset
  | nextSegmentId
  | shardCursor
  | shardSegmentId (shard : ℕ)
  | shardSegmentOffset (shard : ℕ)
deriving DecidableEq, Repr

/-- The text stored in the `name` column. -/
def MetadataName.text : MetadataName → String
  | .segmentId => "segment_id"
  | .segmentOffset => "segment_offset"
  | .nextSegmentId => "next_segment_id"
  | .shardCursor => "shard_cursor"
  | .shardSegmentId shard => "shard_" ++ toString shard ++ "_segment_id"
  | .shardSegmentOffset shard => "shard_" ++ toString shard ++ "_segment_offset"

/-- `name.startswith("shard_") and name.endswith("_segment_id")`. -/
def MetadataName.isShardSegmentId : MetadataName → Bool
  | .shardSegmentId _ => true
  | _ => false

/-- The tables `blocks` and `metadata`. -/
structure Database where
  blocks : Dict OffloadKey SegmentLocation
  metadata : Dict MetadataName ℕ

/-- The tables a constructor creates when there are none. -/
def Database.empty : Database := ⟨.empty, .empty⟩

/-- One process's view of the store. -/
structure SegmentStore where
  config : SegmentConfig
  locationCache : Dict OffloadKey SegmentLocation

/-- A freshly constructed store has cached nothing. -/
def SegmentStore.init (config : SegmentConfig) : SegmentStore := ⟨config, .empty⟩

/-- `_INDEX_BATCH_SIZE`. -/
def indexBatchSize : ℕ := 500

/-- `_chunks`: consecutive slices of at most `indexBatchSize` values. -/
def chunks {α : Type*} (values : List α) : List (List α) := slices indexBatchSize values

/-- `SELECT ... FROM blocks WHERE key IN (...)`. -/
def Database.selectBlocks (db : Database) (chunk : List OffloadKey) :
    List (OffloadKey × SegmentLocation) :=
  db.blocks.items.filter fun row => row.1 ∈ chunk

/-- `get_locations`: cached positions first, then one query for each chunk of the other keys. -/
def SegmentStore.getLocations (store : SegmentStore) (db : Database) (keys : List OffloadKey) :
    List (Option SegmentLocation) × SegmentStore :=
  let cached := keys.foldl (fun locations key =>
    match store.locationCache.get? key with
    | none => locations
    | some location => locations.set key location) Dict.empty
  let missingKeys := keys.filter fun key => (store.locationCache.get? key).isNone
  let rows := (chunks missingKeys).flatMap db.selectBlocks
  (keys.map (cached.setAll rows).get?, { store with locationCache := store.locationCache.setAll rows })

/-- `contains_many`. -/
def SegmentStore.containsMany (store : SegmentStore) (db : Database) (keys : List OffloadKey) :
    List Bool × SegmentStore :=
  let (locations, store) := store.getLocations db keys
  (locations.map Option.isSome, store)

/-- `_latest_segment`: the position of the single-stream format, read from its metadata or else from
the rows of the newest segment. -/
def Database.latestSegment (db : Database) : ℕ × ℕ :=
  match db.metadata.get? .segmentId, db.metadata.get? .segmentOffset with
  | some segmentId, some segmentOffset => (segmentId, segmentOffset)
  | _, _ =>
    match (db.blocks.values.map SegmentLocation.segmentId).max? with
    | none => (0, 0)
    | some segmentId =>
      let rows := db.blocks.values.filter fun location => location.segmentId = segmentId
      (segmentId, (rows.map fun location => location.offset + location.length).max?.getD 0)

/-- One round of the loop over the shards in `_allocation_state`. -/
def allocationStep (metadata : Dict MetadataName ℕ) (hasShardState : Bool) (legacySegment : ℕ × ℕ)
    (state : List (ℕ × ℕ) × ℕ) (shardId : ℕ) : List (ℕ × ℕ) × ℕ :=
  match metadata.get? (.shardSegmentId shardId), metadata.get? (.shardSegmentOffset shardId) with
  | some segmentId, some segmentOffset => (state.1 ++ [(segmentId, segmentOffset)], state.2)
  | _, _ =>
    if shardId = 0 ∧ hasShardState = false then
      (state.1 ++ [legacySegment], max state.2 (legacySegment.1 + 1))
    else (state.1 ++ [(state.2, 0)], state.2 + 1)

/-- `_allocation_state`: where each shard appends, the next unused segment, and the shard whose
turn it is. -/
def Database.allocationState (db : Database) (config : SegmentConfig) : List (ℕ × ℕ) × ℕ × ℕ :=
  let hasShardState := db.metadata.contains (.shardSegmentId 0)
  let legacySegment := if hasShardState then (0, 0) else db.latestSegment
  let existingSegmentIds :=
    if hasShardState then
      (db.metadata.items.filter fun row => row.1.isShardSegmentId).map Prod.snd
    else [legacySegment.1]
  let nextSegmentId := max (existingSegmentIds.max?.elim 0 (· + 1))
    ((db.metadata.get? .nextSegmentId).getD 0)
  let (shardState, nextSegmentId) := (List.range config.segmentShards).foldl
    (allocationStep db.metadata hasShardState legacySegment) ([], nextSegmentId)
  (shardState, nextSegmentId, (db.metadata.get? .shardCursor).getD 0 % config.segmentShards)

/-- The variables of the allocation loop in `prepare_store`. -/
structure Allocation where
  shardState : List (ℕ × ℕ)
  nextSegmentId : ℕ
  entriesByShard : List (List SegmentWrite)

/-- The position a shard appends to next: its current segment, or a new one once the block does not
fit any more. -/
def Allocation.position (allocation : Allocation) (config : SegmentConfig) (shardId : ℕ) : ℕ × ℕ :=
  let (segmentId, segmentOffset) := allocation.shardState.getD shardId (0, 0)
  if segmentOffset + config.blockSize > config.segmentSizeBytes then (allocation.nextSegmentId, 0)
  else (segmentId, segmentOffset)

/-- The body of the allocation loop for one key. -/
def Allocation.append (config : SegmentConfig) (cursor : ℕ) (allocation : Allocation)
    (item : (OffloadKey × ℕ) × ℕ) : Allocation :=
  let ((key, blockId), index) := item
  let shardId := (cursor + index) % config.segmentShards
  let (_, segmentOffset) := allocation.shardState.getD shardId (0, 0)
  let position := allocation.position config shardId
  { shardState := allocation.shardState.set shardId (position.1, position.2 + config.blockSize)
    nextSegmentId :=
      if segmentOffset + config.blockSize > config.segmentSizeBytes then allocation.nextSegmentId + 1
      else allocation.nextSegmentId
    entriesByShard := allocation.entriesByShard.modify shardId
      (· ++ [⟨key, position.1, position.2, blockId⟩]) }

/-- The rows written to `metadata` by `prepare_store`. -/
def metadataRows (nextSegmentId cursor : ℕ) (shardState : List (ℕ × ℕ)) : List (MetadataName × ℕ) :=
  [(.nextSegmentId, nextSegmentId), (.shardCursor, cursor)] ++
    shardState.zipIdx.map (fun shard => (.shardSegmentId shard.2, shard.1.1)) ++
    shardState.zipIdx.map (fun shard => (.shardSegmentOffset shard.2, shard.1.2))

/-- The keys to append, in the order of their first occurrence and with the block of it. -/
def uniqueUnstored (keys : List OffloadKey) (blockIds : List ℕ) (existing : List Bool) :
    Dict OffloadKey ℕ :=
  (keys.zip (blockIds.zip existing)).foldl (fun unique item =>
    if item.2.2 then unique else unique.insertOrIgnore item.1 item.2.1) Dict.empty

/-- The committed part of `prepare_store`, once the keys to append are known. -/
def Database.reserve (db : Database) (config : SegmentConfig) (unique : Dict OffloadKey ℕ) :
    SegmentStorePlan × Database :=
  let (shardState, nextSegmentId, cursor) := db.allocationState config
  let allocation := unique.items.zipIdx.foldl (Allocation.append config cursor)
    ⟨shardState, nextSegmentId, List.replicate config.segmentShards []⟩
  let rows := metadataRows allocation.nextSegmentId ((cursor + unique.size) % config.segmentShards)
    allocation.shardState
  (⟨allocation.entriesByShard.flatten⟩, { db with metadata := db.metadata.setAll rows })

/-- `prepare_store`: reserve an extent for every key that is not visibly stored. -/
def SegmentStore.prepareStore (store : SegmentStore) (db : Database) (keys : List OffloadKey)
    (blockIds : List ℕ) : Except StoreError (SegmentStorePlan × Database × SegmentStore) :=
  if keys.length ≠ blockIds.length then
    .error (.valueError "keys and block_ids must have the same length")
  else if keys.isEmpty then .ok (⟨[]⟩, db, store)
  else
    let (existing, store) := store.containsMany db keys
    let unique := uniqueUnstored keys blockIds existing
    if unique.items.isEmpty then .ok (⟨[]⟩, db, store)
    else
      let (plan, db) := db.reserve store.config unique
      .ok (plan, db, store)

/-- The transaction of `complete_store`: a row that is already there wins. -/
def Database.indexPlan (db : Database) (blockSize : ℕ) (plan : SegmentStorePlan) : Database :=
  let records := plan.entries.map fun entry => (entry.key, entry.location blockSize)
  { db with blocks := db.blocks.insertAllOrIgnore records }

/-- `complete_store`: index the plan of a store that succeeded, and cache the rows that won. -/
def SegmentStore.completeStore (store : SegmentStore) (db : Database) (plan : SegmentStorePlan)
    (success : Bool) : Database × SegmentStore :=
  if !success || plan.entries.isEmpty then (db, store)
  else
    let db := db.indexPlan store.config.blockSize plan
    (db, (store.getLocations db (plan.entries.map SegmentWrite.key)).2)

/-- `delete`: the rows of the keys go, and so do the cached positions of the keys that had a row. -/
def SegmentStore.delete (store : SegmentStore) (db : Database) (keys : List OffloadKey) :
    Finset OffloadKey × Database × SegmentStore :=
  let keyBytes := keys.eraseDups
  let existing := (chunks keyBytes).flatMap fun chunk => (db.selectBlocks chunk).map Prod.fst
  let blocks := (chunks keyBytes).foldl
    (fun blocks chunk => blocks.filter fun key _ => key ∉ chunk) db.blocks
  (existing.toFinset, { db with blocks := blocks },
    { store with locationCache := store.locationCache.eraseAll existing })

/-! ## What the operations do to the tables and the cache -/

theorem mem_chunk_of_mem {α : Type*} {values : List α} {value : α} :
    (∃ chunk ∈ chunks values, value ∈ chunk) ↔ value ∈ values := mem_slice_iff (by decide)

theorem mem_selectBlocks {db : Database} {chunk : List OffloadKey}
    {row : OffloadKey × SegmentLocation} :
    row ∈ db.selectBlocks chunk ↔ db.blocks.get? row.1 = some row.2 ∧ row.1 ∈ chunk := by
  simp [Database.selectBlocks, Dict.get?_eq_some_iff]

theorem mem_selected {db : Database} {keys : List OffloadKey} {row : OffloadKey × SegmentLocation} :
    row ∈ (chunks keys).flatMap db.selectBlocks ↔
      db.blocks.get? row.1 = some row.2 ∧ row.1 ∈ keys := by
  simp only [List.mem_flatMap, mem_selectBlocks]
  constructor
  · rintro ⟨chunk, member, row, key⟩
    exact ⟨row, mem_chunk_of_mem.mp ⟨chunk, member, key⟩⟩
  · rintro ⟨row, key⟩
    obtain ⟨chunk, member, inside⟩ := mem_chunk_of_mem.mpr key
    exact ⟨chunk, member, row, inside⟩

/-- Setting the selected rows overwrites exactly the bindings of the selected keys. -/
theorem get?_setAll_selected (d : Dict OffloadKey SegmentLocation) (db : Database)
    (keys : List OffloadKey) (key : OffloadKey) :
    (d.setAll ((chunks keys).flatMap db.selectBlocks)).get? key =
      (if key ∈ keys then db.blocks.get? key else none).or (d.get? key) := by
  by_cases found : key ∈ keys ∧ ∃ location, db.blocks.get? key = some location
  · obtain ⟨member, location, row⟩ := found
    rw [if_pos member, row, Option.some_or]
    apply Dict.get?_setAll_of_forall
    · rintro ⟨other, at_other⟩ selected same
      have atKey := (mem_selected.mp selected).1
      simp only at same
      rw [same, row] at atKey
      exact (Option.some.inj atKey).symm
    · exact List.mem_map.mpr ⟨(key, location), mem_selected.mpr ⟨row, member⟩, rfl⟩
  · have nothing : (if key ∈ keys then db.blocks.get? key else none) = none := by
      split
      · next member =>
        rw [Option.eq_none_iff_forall_ne_some]
        exact fun location row => found ⟨member, location, row⟩
      · rfl
    rw [nothing, Option.none_or]
    apply Dict.get?_setAll_of_notMem
    rw [List.mem_map]
    rintro ⟨row, selected, rfl⟩
    exact found ⟨(mem_selected.mp selected).2, row.2, (mem_selected.mp selected).1⟩

/-- The cached positions collected by `get_locations`. -/
theorem get?_cached (cache : Dict OffloadKey SegmentLocation) (keys : List OffloadKey)
    (key : OffloadKey) (start : Dict OffloadKey SegmentLocation)
    (agrees : ∀ location, start.get? key = some location → cache.get? key = some location) :
    (keys.foldl (fun locations key =>
      match cache.get? key with
      | none => locations
      | some location => locations.set key location) start).get? key =
        (start.get? key).or (if key ∈ keys then cache.get? key else none) := by
  induction keys generalizing start with
  | nil => simp
  | cons head rest ih =>
    rw [List.foldl_cons]
    cases atHead : cache.get? head with
    | none =>
      rw [ih start agrees]
      by_cases same : key = head
      · subst same
        simp [atHead]
      · simp [same]
    | some location =>
      rw [ih]
      · by_cases same : key = head
        · subst same
          cases before : start.get? key with
          | none => simp [atHead]
          | some old => simp [atHead, Option.some.inj ((agrees old before).symm.trans atHead)]
        · simp [same]
      · intro other
        rw [Dict.get?_set]
        split
        · next same =>
          subst same
          exact fun equal => by rw [atHead, equal]
        · exact agrees other

/-- A key is found in the cache, or else in the table. -/
theorem SegmentStore.getLocations_fst (store : SegmentStore) (db : Database)
    (keys : List OffloadKey) : (store.getLocations db keys).1 =
      keys.map fun key => (store.locationCache.get? key).or (db.blocks.get? key) := by
  simp only [SegmentStore.getLocations]
  apply List.map_congr_left
  intro key member
  rw [get?_setAll_selected, get?_cached _ _ _ _ (by simp), Dict.get?_empty, Option.none_or,
    if_pos member]
  cases cached : store.locationCache.get? key <;> simp [member, cached]

/-- `if not keys: return []`. -/
theorem SegmentStore.getLocations_nil (store : SegmentStore) (db : Database) :
    store.getLocations db [] = ([], store) := by
  simp [SegmentStore.getLocations, chunks, slices, indexBatchSize, Dict.setAll]

@[simp] theorem SegmentStore.getLocations_config (store : SegmentStore) (db : Database)
    (keys : List OffloadKey) : (store.getLocations db keys).2.config = store.config := rfl

/-- Rows that were looked up and found are cached; nothing cached is overwritten. -/
theorem SegmentStore.getLocations_cache (store : SegmentStore) (db : Database)
    (keys : List OffloadKey) (key : OffloadKey) :
    (store.getLocations db keys).2.locationCache.get? key =
      (store.locationCache.get? key).or (if key ∈ keys then db.blocks.get? key else none) := by
  simp only [SegmentStore.getLocations]
  rw [get?_setAll_selected]
  cases cached : store.locationCache.get? key <;> simp [cached]

theorem SegmentStore.containsMany_fst (store : SegmentStore) (db : Database)
    (keys : List OffloadKey) : (store.containsMany db keys).1 = keys.map fun key =>
      store.locationCache.contains key || db.blocks.contains key := by
  simp only [SegmentStore.containsMany, SegmentStore.getLocations_fst, List.map_map]
  apply List.map_congr_left
  intro key _
  simp only [Function.comp_apply, Dict.contains, Option.isSome_or]

theorem SegmentStore.containsMany_snd (store : SegmentStore) (db : Database)
    (keys : List OffloadKey) : (store.containsMany db keys).2 = (store.getLocations db keys).2 := rfl

/-- The keys of a plan are those passed to `prepare_store` that were not found. -/
theorem get?_uniqueUnstored (keys : List OffloadKey) (blockIds : List ℕ) (stored : OffloadKey → Bool)
    (start : Dict OffloadKey ℕ) (key : OffloadKey) (same : keys.length = blockIds.length) :
    (((keys.zip (blockIds.zip (keys.map stored))).foldl (fun unique item =>
      if item.2.2 then unique else unique.insertOrIgnore item.1 item.2.1) start).get? key).isSome =
        ((start.get? key).isSome || (decide (key ∈ keys) && !stored key)) := by
  induction keys generalizing blockIds start with
  | nil => simp
  | cons head rest ih =>
    cases blockIds with
    | nil => simp at same
    | cons blockId blockIds =>
      simp only [List.map_cons, List.zip_cons_cons, List.foldl_cons]
      rw [ih _ _ (by simpa using same)]
      by_cases equal : key = head
      · subst equal
        cases at_key : stored key <;> simp
      · cases at_head : stored head <;> simp [equal]

theorem contains_uniqueUnstored (store : SegmentStore) (db : Database) (keys : List OffloadKey)
    (blockIds : List ℕ) (same : keys.length = blockIds.length) (key : OffloadKey) :
    (uniqueUnstored keys blockIds (store.containsMany db keys).1).contains key = true ↔
      key ∈ keys ∧ store.locationCache.get? key = none ∧ db.blocks.get? key = none := by
  rw [SegmentStore.containsMany_fst, Dict.contains, uniqueUnstored,
    get?_uniqueUnstored _ _ (fun key => store.locationCache.contains key || db.blocks.contains key)
      _ _ same]
  simp [Dict.contains]

/-- A completed plan adds its rows under the keys that have none. -/
theorem Database.get?_indexPlan (db : Database) (blockSize : ℕ) (plan : SegmentStorePlan)
    (key : OffloadKey) : (db.indexPlan blockSize plan).blocks.get? key = (db.blocks.get? key).or
      ((plan.entries.find? fun entry => entry.key = key).map fun entry => entry.location blockSize) := by
  simp only [Database.indexPlan, Dict.get?_insertAllOrIgnore, List.find?_map, Option.map_map]
  rfl

theorem SegmentStore.delete_blocks (store : SegmentStore) (db : Database) (keys : List OffloadKey)
    (key : OffloadKey) : (store.delete db keys).2.1.blocks.get? key =
      if key ∈ keys then none else db.blocks.get? key := by
  have onChunks : ∀ (blocks : Dict OffloadKey SegmentLocation) (pieces : List (List OffloadKey)),
      (pieces.foldl (fun blocks chunk => blocks.filter fun key _ => key ∉ chunk) blocks).get? key =
        if ∃ chunk ∈ pieces, key ∈ chunk then none else blocks.get? key := by
    intro blocks pieces
    induction pieces generalizing blocks with
    | nil => simp
    | cons chunk rest ih =>
      rw [List.foldl_cons, ih, Dict.get?_filter]
      by_cases inside : key ∈ chunk
      · cases blocks.get? key <;> simp [inside, Option.filter]
      · cases blocks.get? key <;> simp [inside, Option.filter]
  simp only [SegmentStore.delete, onChunks, mem_chunk_of_mem, List.mem_eraseDups]

/-- Only keys with a row lose their cached position. -/
theorem SegmentStore.delete_cache (store : SegmentStore) (db : Database) (keys : List OffloadKey)
    (key : OffloadKey) : (store.delete db keys).2.2.locationCache.get? key =
      if key ∈ keys ∧ db.blocks.contains key = true then none else store.locationCache.get? key := by
  simp only [SegmentStore.delete, Dict.get?_eraseAll]
  congr 1
  rw [← List.map_flatMap, List.mem_map, Dict.contains, Option.isSome_iff_exists]
  simp only [Prod.exists, mem_selected, List.mem_eraseDups, exists_and_right, exists_eq_right,
    eq_iff_iff]
  exact and_comm

end KVTiering.Model
