import KVTiering.Model.SegmentStore
import Mathlib.Data.List.Perm.Basic
import Mathlib.Data.List.Lemmas
import Mathlib.Tactic.Tauto

/-! # Reserving extents advances a frontier

`prepare_store` rebuilds its allocator from the metadata rows on every call, for as many shards as
the calling instance has. The rows of all shards, those of the instance and those it does not know,
describe one `Frontier`; rebuilding opens containers on it and reserving a block appends to one of its
streams. So everything the frontier covered stays covered, and what is reserved is disjoint from it.
-/

namespace KVTiering.Soundness

open Model

/-- What the metadata says about one shard, whether or not any instance uses it now. -/
def shard? (db : Database) (shardId : ℕ) : Option (ℕ × ℕ) :=
  match db.metadata.get? (.shardSegmentId shardId), db.metadata.get? (.shardSegmentOffset shardId) with
  | some segmentId, some segmentOffset => some (segmentId, segmentOffset)
  | _, _ => none

theorem shard?_eq_some_iff {db : Database} {shardId : ℕ} {position : ℕ × ℕ} :
    shard? db shardId = some position ↔
      db.metadata.get? (.shardSegmentId shardId) = some position.1 ∧
        db.metadata.get? (.shardSegmentOffset shardId) = some position.2 := by
  unfold shard?
  cases db.metadata.get? (.shardSegmentId shardId) <;>
    cases db.metadata.get? (.shardSegmentOffset shardId) <;> simp [Prod.ext_iff]

/-- The metadata of a database that the current format has written. -/
structure Describes (db : Database) (f : Frontier ℕ) : Prop where
  shards : ∀ i, f.cursor i = shard? db i
  next : db.metadata.get? .nextSegmentId = some f.next
  first : db.metadata.contains (.shardSegmentId 0) = true
  paired : ∀ i segmentId, db.metadata.get? (.shardSegmentId i) = some segmentId →
    ∃ offset, db.metadata.get? (.shardSegmentOffset i) = some offset

/-- Every used extent is covered by the metadata; before any metadata is written, the used extents
are those of the rows. -/
def Tracked (db : Database) (used : Extent → Prop) : Prop :=
  (db.metadata.items = [] ∧
    ∀ e, used e → ∃ key location, db.blocks.get? key = some location ∧ location.extent = e) ∨
  ∃ f, Describes db f ∧ ∀ e, used e → f.Covers e

theorem Tracked.mono {db : Database} {used less : Extent → Prop} (tracked : Tracked db used)
    (fewer : ∀ e, less e → used e) : Tracked db less := by
  rcases tracked with ⟨legacy, rows⟩ | ⟨f, describes, covers⟩
  · exact .inl ⟨legacy, fun e member => rows e (fewer e member)⟩
  · exact .inr ⟨f, describes, fun e member => covers e (fewer e member)⟩

theorem Describes.congr {db db' : Database} {f : Frontier ℕ} (describes : Describes db f)
    (same : db'.metadata = db.metadata) : Describes db' f where
  shards i := by rw [describes.shards]; simp only [shard?, same]
  next := by rw [same]; exact describes.next
  first := by rw [same]; exact describes.first
  paired := by rw [same]; exact describes.paired

/-! ### Rebuilding the shards -/

/-- The shards of the instance as far as they have been rebuilt, the metadata for the others. -/
def overlay (shardState : List (ℕ × ℕ)) (known : ℕ → Option (ℕ × ℕ)) (shardId : ℕ) : Option (ℕ × ℕ) :=
  (shardState[shardId]?).or (known shardId)

theorem overlay_append (shardState : List (ℕ × ℕ)) (position : ℕ × ℕ)
    (known : ℕ → Option (ℕ × ℕ)) : overlay (shardState ++ [position]) known =
      Function.update (overlay shardState known) shardState.length (some position) := by
  funext i
  rcases lt_trichotomy i shardState.length with before | rfl | after
  · simp [overlay, List.getElem?_append_left before, Function.update_of_ne before.ne]
  · simp [overlay]
  · have out : ¬ i < (shardState ++ [position]).length := by simp; omega
    simp [overlay, Function.update_of_ne after.ne', List.getElem?_eq_none (Nat.le_of_lt after),
      List.getElem?_eq_none (Nat.le_of_not_lt out)]

theorem overlay_set (shardState : List (ℕ × ℕ)) (shardId : ℕ) (position : ℕ × ℕ)
    (known : ℕ → Option (ℕ × ℕ)) (inside : shardId < shardState.length) :
    overlay (shardState.set shardId position) known =
      Function.update (overlay shardState known) shardId (some position) := by
  funext i
  by_cases same : i = shardId
  · subst same
    simp [overlay, inside]
  · simp [overlay, Function.update_of_ne same, List.getElem?_set_ne (Ne.symm same)]

/-- The loop variables describe the frontier, which covers what is used. -/
structure Rebuilt (used : Extent → Prop) (known : ℕ → Option (ℕ × ℕ)) (shardState : List (ℕ × ℕ))
    (next : ℕ) (f : Frontier ℕ) : Prop where
  cursor : f.cursor = overlay shardState known
  next_eq : f.next = next
  covers : ∀ e, used e → f.Covers e

/-- A shard with both of its rows is taken as it is. -/
theorem Rebuilt.known {used : Extent → Prop} {known : ℕ → Option (ℕ × ℕ)}
    {shardState : List (ℕ × ℕ)} {next : ℕ} {f : Frontier ℕ} (rebuilt : Rebuilt used known shardState next f)
    {position : ℕ × ℕ} (row : known shardState.length = some position) :
    Rebuilt used known (shardState ++ [position]) next f := by
  refine ⟨?_, rebuilt.next_eq, rebuilt.covers⟩
  rw [overlay_append, rebuilt.cursor, Function.eq_update_iff]
  exact ⟨by simp [overlay, row], fun _ _ => rfl⟩

/-- Any other shard gets the next segment. -/
theorem Rebuilt.renew {used : Extent → Prop} {known : ℕ → Option (ℕ × ℕ)}
    {shardState : List (ℕ × ℕ)} {next : ℕ} {f : Frontier ℕ}
    (rebuilt : Rebuilt used known shardState next f) :
    Rebuilt used known (shardState ++ [(next, 0)]) (next + 1) (f.renew shardState.length) := by
  refine ⟨?_, by rw [Frontier.renew_next, rebuilt.next_eq], fun e member => (rebuilt.covers e member).renew _⟩
  rw [overlay_append, Frontier.renew_cursor, rebuilt.cursor, rebuilt.next_eq]

/-- With shard rows in the metadata, every round of the loop opens or keeps a stream. -/
theorem allocationLoop_described {db : Database} {used : Extent → Prop} {f : Frontier ℕ}
    (legacySegment : ℕ × ℕ) (start : Rebuilt used (shard? db) [] f.next f) (rounds : ℕ) :
    ∃ g, Rebuilt used (shard? db)
        ((List.range rounds).foldl (allocationStep db.metadata true legacySegment) ([], f.next)).1
        ((List.range rounds).foldl (allocationStep db.metadata true legacySegment) ([], f.next)).2 g ∧
      ((List.range rounds).foldl (allocationStep db.metadata true legacySegment)
        ([], f.next)).1.length = rounds := by
  induction rounds with
  | zero => exact ⟨f, start, rfl⟩
  | succ rounds ih =>
    obtain ⟨g, rebuilt, length⟩ := ih
    rw [List.range_succ, List.foldl_append, List.foldl_cons, List.foldl_nil]
    generalize (List.range rounds).foldl (allocationStep db.metadata true legacySegment)
      ([], f.next) = state at rebuilt length ⊢
    subst length
    unfold allocationStep
    cases segmentId : db.metadata.get? (.shardSegmentId state.1.length) <;>
      cases offset : db.metadata.get? (.shardSegmentOffset state.1.length)
    all_goals first
      | exact ⟨g, rebuilt.known (shard?_eq_some_iff.mpr ⟨segmentId, offset⟩), by simp⟩
      | exact ⟨_, by simpa using rebuilt.renew, by simp⟩

/-- Without metadata, shard 0 continues the newest segment and the others are opened after it. -/
theorem allocationLoop_legacy {db : Database} {used : Extent → Prop} {legacySegment : ℕ × ℕ}
    (noMetadata : db.metadata.items = [])
    (behind : ∀ e, used e → e.container ≤ legacySegment.1 ∧
      (e.container = legacySegment.1 → e.stop ≤ legacySegment.2)) (rounds : ℕ) :
    ∃ g, Rebuilt used (shard? db)
        ((List.range (rounds + 1)).foldl (allocationStep db.metadata false legacySegment)
          ([], legacySegment.1 + 1)).1
        ((List.range (rounds + 1)).foldl (allocationStep db.metadata false legacySegment)
          ([], legacySegment.1 + 1)).2 g ∧
      ((List.range (rounds + 1)).foldl (allocationStep db.metadata false legacySegment)
        ([], legacySegment.1 + 1)).1.length = rounds + 1 := by
  have unset : ∀ name, db.metadata.get? name = none := by
    intro name
    rw [Dict.get?_eq_none_iff, Dict.keys, noMetadata]
    simp
  have unknown : shard? db = fun _ => none := by
    funext i
    simp [shard?, unset]
  induction rounds with
  | zero =>
    have first : (List.range 1).foldl (allocationStep db.metadata false legacySegment)
        ([], legacySegment.1 + 1) = ([legacySegment], legacySegment.1 + 1) := by
      simp [allocationStep, unset]
    rw [first, unknown]
    refine ⟨(Frontier.closed (legacySegment.1 + 1)).place 0 legacySegment.1 legacySegment.2
      (Nat.lt_succ_self _) (by simp [Frontier.closed]), ⟨?_, rfl, ?_⟩, rfl⟩
    · exact (overlay_append [] legacySegment _).symm
    · intro e member
      refine ⟨Nat.lt_succ_of_le (behind e member).1, ?_⟩
      intro i c at_i shared
      by_cases same : i = 0
      · subst same
        obtain rfl : legacySegment = c := by simpa [Frontier.place] using at_i
        exact (behind e member).2 shared.symm
      · simp [Frontier.place, Frontier.closed, same] at at_i
  | succ rounds ih =>
    obtain ⟨g, rebuilt, length⟩ := ih
    rw [List.range_succ, List.foldl_append, List.foldl_cons, List.foldl_nil]
    generalize (List.range (rounds + 1)).foldl (allocationStep db.metadata false legacySegment)
      ([], legacySegment.1 + 1) = state at rebuilt length ⊢
    have step : allocationStep db.metadata false legacySegment state (rounds + 1) =
        (state.1 ++ [(state.2, 0)], state.2 + 1) := by
      simp [allocationStep, unset]
    rw [step]
    exact ⟨_, rebuilt.renew, by simp [length]⟩

/-- The newest segment of the rows, and an offset behind all of its rows. -/
theorem latestSegment_behind {db : Database} (noMetadata : db.metadata.items = [])
    {key : OffloadKey} {location : SegmentLocation} (row : db.blocks.get? key = some location) :
    location.segmentId ≤ db.latestSegment.1 ∧
      (location.segmentId = db.latestSegment.1 → location.extent.stop ≤ db.latestSegment.2) := by
  have unset : ∀ name, db.metadata.get? name = none := by
    intro name
    rw [Dict.get?_eq_none_iff, Dict.keys, noMetadata]
    simp
  have value : location ∈ db.blocks.values := Dict.mem_values_iff.mpr ⟨key, row⟩
  have isRow : location.segmentId ∈ db.blocks.values.map SegmentLocation.segmentId :=
    List.mem_map_of_mem value
  simp only [Database.latestSegment, unset]
  cases newest : (db.blocks.values.map SegmentLocation.segmentId).max? with
  | none =>
    rw [List.max?_eq_none_iff.mp newest] at isRow
    cases isRow
  | some segmentId =>
    refine ⟨(List.max?_eq_some_iff.mp newest).2 _ isRow, ?_⟩
    intro same
    have isEnd : location.extent.stop ∈ (db.blocks.values.filter
        fun other => decide (other.segmentId = segmentId)).map fun other => other.offset + other.length :=
      List.mem_map.mpr ⟨location, List.mem_filter.mpr ⟨value, by simpa using same⟩, rfl⟩
    dsimp only
    cases last : ((db.blocks.values.filter
        fun other => decide (other.segmentId = segmentId)).map
          fun other => other.offset + other.length).max? with
    | none =>
      rw [List.max?_eq_none_iff.mp last] at isEnd
      cases isEnd
    | some stop => exact (List.max?_eq_some_iff.mp last).2 _ isEnd

/-- No shard of the metadata is in a later segment than the next one. -/
theorem Describes.largest {db : Database} {f : Frontier ℕ} (describes : Describes db f) :
    max (((db.metadata.items.filter
      fun row => row.1.isShardSegmentId).map Prod.snd).max?.elim 0 (· + 1)) f.next = f.next := by
  apply max_eq_right
  cases newest : ((db.metadata.items.filter
    fun row => row.1.isShardSegmentId).map Prod.snd).max? with
  | none => exact Nat.zero_le _
  | some segmentId =>
    obtain ⟨⟨name, value⟩, member, rfl⟩ := List.mem_map.mp (List.max?_eq_some_iff.mp newest).1
    obtain ⟨row, isShard⟩ := List.mem_filter.mp member
    cases name with
    | shardSegmentId i =>
      have atShard := Dict.get?_eq_some_iff.mpr row
      obtain ⟨offset, atOffset⟩ := describes.paired i value atShard
      have position : shard? db i = some (value, offset) := shard?_eq_some_iff.mpr ⟨atShard, atOffset⟩
      exact f.fresh i _ ((describes.shards i).trans position)
    | _ => simp [MetadataName.isShardSegmentId] at isShard

/-- `_allocation_state` recovers a frontier that covers everything used. -/
theorem allocationState_rebuilt {db : Database} {used : Extent → Prop} (tracked : Tracked db used)
    (config : SegmentConfig) :
    ∃ f, Rebuilt used (shard? db) (db.allocationState config).1 (db.allocationState config).2.1 f ∧
      (db.allocationState config).1.length = config.segmentShards := by
  rcases tracked with ⟨noMetadata, rows⟩ | ⟨f, describes, covers⟩
  · have unset : ∀ name, db.metadata.get? name = none := by
      intro name
      rw [Dict.get?_eq_none_iff, Dict.keys, noMetadata]
      simp
    obtain ⟨rounds, shards⟩ := Nat.exists_eq_succ_of_ne_zero config.segmentShards_pos.ne'
    have behind : ∀ e, used e → e.container ≤ db.latestSegment.1 ∧
        (e.container = db.latestSegment.1 → e.stop ≤ db.latestSegment.2) := by
      intro e member
      obtain ⟨key, location, row, rfl⟩ := rows e member
      exact latestSegment_behind noMetadata row
    have loop := allocationLoop_legacy noMetadata behind rounds
    simpa [Database.allocationState, Dict.contains, unset, shards] using loop
  · have largest := describes.largest
    have start : Rebuilt used (shard? db) [] f.next f :=
      ⟨by funext i; simp [overlay, describes.shards], rfl, covers⟩
    have loop := allocationLoop_described (0, 0) start config.segmentShards
    simpa [Database.allocationState, describes.first, describes.next, largest] using loop

/-! ### The allocation loop -/

/-- The state of the allocation loop, with the entries planned so far. -/
structure Reserving (used : Extent → Prop) (known : ℕ → Option (ℕ × ℕ)) (config : SegmentConfig)
    (allocation : Allocation) (f : Frontier ℕ) : Prop where
  rebuilt : Rebuilt used known allocation.shardState allocation.nextSegmentId f
  shards : allocation.shardState.length = config.segmentShards
  lists : allocation.entriesByShard.length = config.segmentShards
  planned : ∀ entry ∈ allocation.entriesByShard.flatten,
    f.Covers (entry.extent config.blockSize) ∧
      (∀ e, used e → (entry.extent config.blockSize).Disjoint e) ∧
      entry.offset + config.blockSize ≤ config.segmentSizeBytes
  apart : allocation.entriesByShard.flatten.Pairwise fun a b =>
    (a.extent config.blockSize).Disjoint (b.extent config.blockSize)

/-- The stream of the chosen shard stands at the position the next block is given. -/
theorem Reserving.position {used : Extent → Prop} {known : ℕ → Option (ℕ × ℕ)}
    {config : SegmentConfig} {allocation : Allocation} {f : Frontier ℕ}
    (reserving : Reserving used known config allocation f) (shardId : ℕ)
    (inside : shardId < config.segmentShards) :
    ∃ g, Rebuilt used known (allocation.shardState.set shardId (allocation.position config shardId))
        (if (allocation.shardState.getD shardId (0, 0)).2 + config.blockSize > config.segmentSizeBytes
          then allocation.nextSegmentId + 1 else allocation.nextSegmentId) g ∧
      g.cursor shardId = some (allocation.position config shardId) ∧
      (∀ e, f.Covers e → g.Covers e) ∧
      (allocation.position config shardId).2 + config.blockSize ≤ config.segmentSizeBytes := by
  have within : shardId < allocation.shardState.length := by rw [reserving.shards]; exact inside
  have current : allocation.shardState.getD shardId (0, 0) = allocation.shardState[shardId] := by
    simp [within]
  unfold Allocation.position
  rw [current]
  by_cases full : allocation.shardState[shardId].2 + config.blockSize > config.segmentSizeBytes
  · refine ⟨f.renew shardId, ⟨?_, ?_, ?_⟩, ?_, fun e covered => covered.renew shardId, ?_⟩
    · simp only [if_pos full, overlay_set _ _ _ _ within, Frontier.renew_cursor,
        reserving.rebuilt.cursor, reserving.rebuilt.next_eq]
    · simp only [if_pos full, Frontier.renew_next, reserving.rebuilt.next_eq]
    · exact fun e member => (reserving.rebuilt.covers e member).renew shardId
    · simp [full, reserving.rebuilt.next_eq]
    · simpa [full] using config.blockSize_le
  · have same : overlay allocation.shardState known shardId = some allocation.shardState[shardId] := by
      simp [overlay, within]
    refine ⟨f, ⟨?_, ?_, reserving.rebuilt.covers⟩, ?_, fun e covered => covered, ?_⟩
    · simp only [if_neg full]
      rw [List.set_getElem_self, reserving.rebuilt.cursor]
    · simp only [if_neg full, reserving.rebuilt.next_eq]
    · simp only [if_neg full, reserving.rebuilt.cursor, same]
    · simp only [if_neg full]
      exact Nat.le_of_not_gt full

/-- One round of the loop plans one block at the position of its shard. -/
theorem Reserving.append {used : Extent → Prop} {known : ℕ → Option (ℕ × ℕ)}
    {config : SegmentConfig} {allocation : Allocation} {f : Frontier ℕ}
    (reserving : Reserving used known config allocation f) (cursor : ℕ)
    (item : (OffloadKey × ℕ) × ℕ) :
    ∃ g, Reserving used known config (allocation.append config cursor item) g := by
  obtain ⟨⟨key, blockId⟩, index⟩ := item
  have inside : (cursor + index) % config.segmentShards < config.segmentShards :=
    Nat.mod_lt _ config.segmentShards_pos
  obtain ⟨g, rebuilt, atShard, more, fits⟩ := reserving.position _ inside
  have within : (cursor + index) % config.segmentShards < allocation.shardState.length := by
    rw [reserving.shards]; exact inside
  set shardId := (cursor + index) % config.segmentShards
  set position := allocation.position config shardId
  set entry : SegmentWrite := ⟨key, position.1, position.2, blockId⟩
  have perm : (allocation.append config cursor ((key, blockId), index)).entriesByShard.flatten.Perm
      (entry :: allocation.entriesByShard.flatten) :=
    flatten_modify_perm _ _ _ (by rw [reserving.lists]; exact inside)
  have covers : ∀ e, f.Covers e → (g.advance shardId position atShard config.blockSize).Covers e :=
    fun e covered => (more e covered).advance _ _ _ _
  refine ⟨g.advance shardId position atShard config.blockSize, ⟨?_, ?_, ?_⟩, ?_, ?_, ?_, ?_⟩
  · have moved := overlay_set (allocation.shardState.set shardId position) shardId
      (position.1, position.2 + config.blockSize) known (by simpa using within)
    rw [Frontier.advance_cursor, rebuilt.cursor, ← moved, List.set_set]
    rfl
  · exact rebuilt.next_eq
  · exact fun e member => covers e (reserving.rebuilt.covers e member)
  · simpa [Allocation.append] using reserving.shards
  · simpa [Allocation.append] using reserving.lists
  · intro other member
    rcases List.mem_cons.mp (perm.mem_iff.mp member) with rfl | old
    · refine ⟨g.covers_advanced _ _ atShard _, ?_, fits⟩
      exact fun e member => (rebuilt.covers e member).disjoint _ _ atShard _
    · obtain ⟨covered, disjoint, bound⟩ := reserving.planned other old
      exact ⟨covers _ covered, disjoint, bound⟩
  · rw [perm.pairwise_iff (fun apart => apart.symm), List.pairwise_cons]
    refine ⟨?_, reserving.apart⟩
    exact fun other old => (more _ (reserving.planned other old).1).disjoint _ _ atShard _

/-- The whole loop: all planned entries are covered, apart, and behind everything used. -/
theorem Reserving.foldl {used : Extent → Prop} {known : ℕ → Option (ℕ × ℕ)}
    {config : SegmentConfig} {allocation : Allocation} {f : Frontier ℕ}
    (reserving : Reserving used known config allocation f) (cursor : ℕ)
    (items : List ((OffloadKey × ℕ) × ℕ)) :
    ∃ g, Reserving used known config (items.foldl (Allocation.append config cursor) allocation) g := by
  induction items generalizing allocation f with
  | nil => exact ⟨f, reserving⟩
  | cons item rest ih =>
    obtain ⟨g, next⟩ := reserving.append cursor item
    exact ih next

/-- The loop plans each item once, under its own key and block. -/
theorem reserve_entries_perm (db : Database) (config : SegmentConfig) (unique : Dict OffloadKey ℕ) :
    ((db.reserve config unique).1.entries.map fun entry => (entry.key, entry.blockId)).Perm
      unique.items := by
  have loop : ∀ (cursor : ℕ) (items : List ((OffloadKey × ℕ) × ℕ)) (allocation : Allocation),
      allocation.entriesByShard.length = config.segmentShards →
      ((items.foldl (Allocation.append config cursor) allocation).entriesByShard.flatten.map
        fun entry => (entry.key, entry.blockId)).Perm
          ((allocation.entriesByShard.flatten.map fun entry => (entry.key, entry.blockId)) ++
            items.map Prod.fst) := by
    intro cursor items
    induction items with
    | nil => simp
    | cons item rest ih =>
      intro allocation lists
      have inside : (cursor + item.2) % config.segmentShards < allocation.entriesByShard.length := by
        rw [lists]
        exact Nat.mod_lt _ config.segmentShards_pos
      have added := (flatten_modify_perm allocation.entriesByShard _ ⟨item.1.1,
        (allocation.position config ((cursor + item.2) % config.segmentShards)).1,
        (allocation.position config ((cursor + item.2) % config.segmentShards)).2, item.1.2⟩ inside).map
          fun entry : SegmentWrite => (entry.key, entry.blockId)
      rw [List.foldl_cons]
      apply (ih _ (by simpa [Allocation.append] using lists)).trans
      apply (added.append_right _).trans
      simpa using List.perm_middle.symm
  have all := loop (db.allocationState config).2.2 unique.items.zipIdx
    ⟨(db.allocationState config).1, (db.allocationState config).2.1,
      List.replicate config.segmentShards []⟩ (by simp)
  have pairs : unique.items.zipIdx.map Prod.fst = unique.items := by simp
  rw [pairs] at all
  simpa [Database.reserve] using all

/-! ### Committing the new state -/

private theorem get?_zipIdx {α : Type*} (items : List α) (i : ℕ) (d : Dict MetadataName ℕ)
    (name : ℕ → MetadataName) (value : α → ℕ) (injective : Function.Injective name) :
    (d.setAll (items.zipIdx.map fun item => (name item.2, value item.1))).get? (name i) =
      ((items[i]?).map value).or (d.get? (name i)) := by
  cases at_i : items[i]? with
  | none =>
    apply Dict.get?_setAll_of_notMem
    simp only [List.map_map, List.mem_map, Function.comp_apply, not_exists, not_and]
    intro item member same
    have found := List.mem_zipIdx_iff_getElem?.mp member
    rw [injective same, at_i] at found
    cases found
  | some a =>
    apply Dict.get?_setAll_of_forall
    · intro row member same
      obtain ⟨item, inside, rfl⟩ := List.mem_map.mp member
      have found := List.mem_zipIdx_iff_getElem?.mp inside
      rw [injective same, at_i] at found
      exact congrArg value (Option.some.inj found).symm
    · rw [List.map_map, List.mem_map]
      exact ⟨(a, i), List.mem_zipIdx_iff_getElem?.mpr at_i, rfl⟩

private theorem get?_zipIdx_other {α : Type*} (items : List α) (d : Dict MetadataName ℕ)
    (name : ℕ → MetadataName) (value : α → ℕ) {other : MetadataName} (differ : ∀ i, name i ≠ other) :
    (d.setAll (items.zipIdx.map fun item => (name item.2, value item.1))).get? other = d.get? other := by
  apply Dict.get?_setAll_of_notMem
  simp only [List.map_map, List.mem_map, Function.comp_apply, not_exists, not_and]
  exact fun item _ => differ item.2

/-- Reading the metadata after `prepare_store` wrote its rows. -/
theorem get?_metadataRows (metadata : Dict MetadataName ℕ) (next cursor : ℕ)
    (shardState : List (ℕ × ℕ)) (i : ℕ) :
    let written := metadata.setAll (metadataRows next cursor shardState)
    written.get? .nextSegmentId = some next ∧
      written.get? (.shardSegmentId i) =
        ((shardState[i]?).map Prod.fst).or (metadata.get? (.shardSegmentId i)) ∧
      written.get? (.shardSegmentOffset i) =
        ((shardState[i]?).map Prod.snd).or (metadata.get? (.shardSegmentOffset i)) := by
  have split : metadata.setAll (metadataRows next cursor shardState) =
      (((metadata.set .nextSegmentId next).set .shardCursor cursor).setAll
        (shardState.zipIdx.map fun shard => (.shardSegmentId shard.2, shard.1.1))).setAll
        (shardState.zipIdx.map fun shard => (.shardSegmentOffset shard.2, shard.1.2)) := by
    simp only [Dict.setAll, metadataRows, List.foldl_append, List.foldl_cons, List.foldl_nil]
  intro written
  change metadata.setAll _ = _ at split
  refine ⟨?_, ?_, ?_⟩ <;> simp only [written, split]
  · rw [get?_zipIdx_other _ _ .shardSegmentOffset Prod.snd (by simp),
      get?_zipIdx_other _ _ .shardSegmentId Prod.fst (by simp)]
    simp
  · rw [get?_zipIdx_other _ _ .shardSegmentOffset Prod.snd (by simp),
      get?_zipIdx _ _ _ .shardSegmentId Prod.fst (fun _ _ => MetadataName.shardSegmentId.inj)]
    simp
  · rw [get?_zipIdx _ _ _ .shardSegmentOffset Prod.snd (fun _ _ => MetadataName.shardSegmentOffset.inj),
      get?_zipIdx_other _ _ .shardSegmentId Prod.fst (by simp)]
    simp

theorem get?_metadataRows_cursor (metadata : Dict MetadataName ℕ) (next cursor : ℕ)
    (shardState : List (ℕ × ℕ)) :
    (metadata.setAll (metadataRows next cursor shardState)).get? .shardCursor = some cursor := by
  have split : metadata.setAll (metadataRows next cursor shardState) =
      (((metadata.set .nextSegmentId next).set .shardCursor cursor).setAll
        (shardState.zipIdx.map fun shard => (.shardSegmentId shard.2, shard.1.1))).setAll
        (shardState.zipIdx.map fun shard => (.shardSegmentOffset shard.2, shard.1.2)) := by
    simp only [Dict.setAll, metadataRows, List.foldl_append, List.foldl_cons, List.foldl_nil]
  rw [split, get?_zipIdx_other _ _ .shardSegmentOffset Prod.snd (by simp),
    get?_zipIdx_other _ _ .shardSegmentId Prod.fst (by simp), Dict.get?_set, if_pos rfl]

/-- Every row pair of the metadata is still a pair after new pairs were written over it. -/
theorem describes_written {db : Database} {f : Frontier ℕ} {allocation : Allocation} {cursor : ℕ}
    (frontier : f.cursor = overlay allocation.shardState (shard? db))
    (next : f.next = allocation.nextSegmentId) (nonempty : 0 < allocation.shardState.length)
    (paired : ∀ i segmentId, db.metadata.get? (.shardSegmentId i) = some segmentId →
      ∃ offset, db.metadata.get? (.shardSegmentOffset i) = some offset) :
    Describes ⟨db.blocks, db.metadata.setAll
      (metadataRows allocation.nextSegmentId cursor allocation.shardState)⟩ f where
  shards i := by
    have read := get?_metadataRows db.metadata allocation.nextSegmentId cursor allocation.shardState i
    rw [frontier]
    apply Option.ext
    intro position
    rw [shard?_eq_some_iff, read.2.1, read.2.2]
    cases at_i : allocation.shardState[i]? with
    | none => simp [overlay, at_i, shard?_eq_some_iff]
    | some state => simp [overlay, at_i, Prod.ext_iff]
  next := by
    rw [(get?_metadataRows db.metadata allocation.nextSegmentId cursor allocation.shardState 0).1, next]
  first := by
    rw [Dict.contains,
      (get?_metadataRows db.metadata allocation.nextSegmentId cursor allocation.shardState 0).2.1,
      List.getElem?_eq_getElem nonempty]
    rfl
  paired i segmentId atShard := by
    have read := get?_metadataRows db.metadata allocation.nextSegmentId cursor allocation.shardState i
    rw [read.2.1] at atShard
    rw [read.2.2]
    cases at_i : allocation.shardState[i]? with
    | none => simpa using paired i segmentId (by simpa [at_i] using atShard)
    | some state => exact ⟨state.2, by simp⟩

theorem Tracked.paired {db : Database} {used : Extent → Prop} (tracked : Tracked db used) (i : ℕ)
    (segmentId : ℕ) (row : db.metadata.get? (.shardSegmentId i) = some segmentId) :
    ∃ offset, db.metadata.get? (.shardSegmentOffset i) = some offset := by
  rcases tracked with ⟨noMetadata, _⟩ | ⟨f, describes, _⟩
  · have member := Dict.get?_eq_some_iff.mp row
    rw [noMetadata] at member
    cases member
  · exact describes.paired i segmentId row

/-- What `prepare_store` reserves is disjoint from all that was used, from itself, and in bounds;
and the metadata it commits covers the old and the new. -/
theorem reserve_spec {db db' : Database} {used : Extent → Prop} (tracked : Tracked db used)
    {config : SegmentConfig} {unique : Dict OffloadKey ℕ} {plan : SegmentStorePlan}
    (reserved : (plan, db') = db.reserve config unique) :
    (∃ f, Describes db' f ∧ (∀ e, used e → f.Covers e) ∧
      ∀ entry ∈ plan.entries, f.Covers (entry.extent config.blockSize)) ∧
    (∀ entry ∈ plan.entries,
      (∀ e, used e → (entry.extent config.blockSize).Disjoint e) ∧
      entry.offset + config.blockSize ≤ config.segmentSizeBytes) ∧
    plan.entries.Pairwise (fun a b =>
      (a.extent config.blockSize).Disjoint (b.extent config.blockSize)) ∧
    db'.blocks = db.blocks := by
  obtain ⟨f, rebuilt, length⟩ := allocationState_rebuilt tracked config
  have start : Reserving used (shard? db) config
      ⟨(db.allocationState config).1, (db.allocationState config).2.1,
        List.replicate config.segmentShards []⟩ f :=
    ⟨rebuilt, length, by simp, by simp, by simp⟩
  obtain ⟨g, done⟩ := start.foldl (db.allocationState config).2.2 unique.items.zipIdx
  obtain ⟨rfl, rfl⟩ := Prod.mk.inj reserved
  refine ⟨⟨g, ?_, done.rebuilt.covers, fun entry member => (done.planned entry member).1⟩,
    fun entry member => (done.planned entry member).2, done.apart, rfl⟩
  exact describes_written done.rebuilt.cursor done.rebuilt.next_eq
    (Nat.lt_of_lt_of_eq config.segmentShards_pos done.shards.symm) tracked.paired

/-- A database described by a frontier has metadata. -/
theorem Describes.nonempty {db : Database} {f : Frontier ℕ} (describes : Describes db f) :
    db.metadata.items ≠ [] := by
  intro noMetadata
  have first := Dict.contains_iff.mp describes.first
  rw [Dict.keys, noMetadata] at first
  cases first

end KVTiering.Soundness
