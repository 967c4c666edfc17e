import KVTiering.Data.Striping
import KVTiering.Soundness.SharedStore

/-! # Where a block is placed

Instances that agree on their constructor arguments deal the blocks they plan to the shards in turn,
across calls, instances and restarts: the metadata rows are the state of one `Striping` writer, in which
shards are streams, segments are containers, and a slot is the space of one block.
-/

namespace KVTiering.Soundness.Placement

open Model

def striping (config : SegmentConfig) : Striping where
  streams := config.segmentShards
  slots := config.segmentSizeBytes / config.blockSize
  streams_pos := config.segmentShards_pos
  slots_pos := Nat.div_pos config.blockSize_le config.blockSize_pos

/-- The number of the `j`-th segment of a shard. -/
def segmentOf (config : SegmentConfig) (shard j : ℕ) : ℕ := j * config.segmentShards + shard

/-- The planned write of the `n`-th block, for a key and a block of the primary tier. -/
def placed (config : SegmentConfig) (n : ℕ) (key : OffloadKey) (blockId : ℕ) : SegmentWrite where
  key := key
  segmentId := segmentOf config (n % config.segmentShards)
    (n / config.segmentShards / (config.segmentSizeBytes / config.blockSize))
  offset := n / config.segmentShards % (config.segmentSizeBytes / config.blockSize) * config.blockSize
  blockId := blockId

/-- Numbered blocks as a plan groups them: by shard, and in the order of the numbers. -/
def dealt (config : SegmentConfig) (numbered : List ((OffloadKey × ℕ) × ℕ)) : List (List SegmentWrite) :=
  (List.range config.segmentShards).map fun shard =>
    (numbered.filter fun item => item.2 % config.segmentShards = shard).map fun item =>
      placed config item.2 item.1.1 item.1.2

/-- Where a shard appends after `n` blocks. -/
def standing (config : SegmentConfig) (n shard : ℕ) : ℕ × ℕ :=
  (((striping config).cursor n shard).1, ((striping config).cursor n shard).2 * config.blockSize)

theorem placed_eq (config : SegmentConfig) (n : ℕ) (key : OffloadKey) (blockId : ℕ) :
    placed config n key blockId = ⟨key, ((striping config).place n).1,
      ((striping config).place n).2 * config.blockSize, blockId⟩ := rfl

/-- A full segment has no room for one more block. -/
theorem full_iff (config : SegmentConfig) (n : ℕ) :
    (standing config n (n % config.segmentShards)).2 + config.blockSize > config.segmentSizeBytes ↔
      (striping config).Opens n := by
  have size : (striping config).slots * config.blockSize = config.segmentSizeBytes :=
    Nat.div_mul_cancel config.blockSize_dvd
  rw [← (striping config).full_iff n, ← size, standing, ← Nat.succ_mul]
  exact Nat.mul_lt_mul_right config.blockSize_pos

/-! ### The allocation loop -/

/-- The loop variables after `n` blocks in all, of which this call has planned the numbered ones. -/
structure Striped (config : SegmentConfig) (n : ℕ) (numbered : List ((OffloadKey × ℕ) × ℕ))
    (allocation : Allocation) : Prop where
  shards : allocation.shardState = (List.range config.segmentShards).map (standing config n)
  next : allocation.nextSegmentId = (striping config).opened n
  lists : allocation.entriesByShard = dealt config numbered

theorem Striped.current {config : SegmentConfig} {n : ℕ} {numbered : List ((OffloadKey × ℕ) × ℕ)}
    {allocation : Allocation} (striped : Striped config n numbered allocation) :
    allocation.shardState.getD (n % config.segmentShards) (0, 0) =
      standing config n (n % config.segmentShards) := by
  have inside := Nat.mod_lt n config.segmentShards_pos
  simp [striped.shards, inside]

/-- The next block goes to its place. -/
theorem Striped.position {config : SegmentConfig} {n : ℕ} {numbered : List ((OffloadKey × ℕ) × ℕ)}
    {allocation : Allocation} (striped : Striped config n numbered allocation) :
    allocation.position config (n % config.segmentShards) =
      (((striping config).place n).1, ((striping config).place n).2 * config.blockSize) := by
  unfold Allocation.position
  rw [striped.current]
  change (if (standing config n (n % config.segmentShards)).2 + config.blockSize >
    config.segmentSizeBytes then _ else _) = _
  by_cases full : (striping config).Opens n
  · rw [if_pos ((full_iff config n).mpr full), (striping config).place_of_opens full, striped.next]
    simp
  · rw [if_neg (mt (full_iff config n).mp full), ← (striping config).cursor_turn n full]
    rfl

/-- Appending one item to the list of its shard. -/
theorem dealt_snoc (config : SegmentConfig) (numbered : List ((OffloadKey × ℕ) × ℕ))
    (item : (OffloadKey × ℕ) × ℕ) :
    dealt config (numbered ++ [item]) = (dealt config numbered).modify (item.2 % config.segmentShards)
      (· ++ [placed config item.2 item.1.1 item.1.2]) := by
  apply List.ext_getElem?
  intro shard
  rw [List.getElem?_modify, dealt, dealt, List.getElem?_map, List.getElem?_map]
  cases at_shard : (List.range config.segmentShards)[shard]? with
  | none => rfl
  | some same =>
    obtain ⟨inside, rfl⟩ := List.getElem?_eq_some_iff.mp at_shard
    simp only [List.getElem_range, List.filter_append, List.map_append, Option.map_some,
      List.filter_singleton]
    by_cases mine : item.2 % config.segmentShards = shard <;> simp [mine]

/-- One round of the loop plans the `n`-th block. -/
theorem Striped.append {config : SegmentConfig} {n : ℕ} {numbered : List ((OffloadKey × ℕ) × ℕ)}
    {allocation : Allocation} (striped : Striped config n numbered allocation) {cursor index : ℕ}
    (turn : (cursor + index) % config.segmentShards = n % config.segmentShards)
    (item : OffloadKey × ℕ) :
    Striped config (n + 1) (numbered ++ [(item, n)]) (allocation.append config cursor (item, index)) := by
  have inside := Nat.mod_lt n config.segmentShards_pos
  refine ⟨?_, ?_, ?_⟩
  · simp only [Allocation.append, turn, striped.position, striped.shards]
    apply List.ext_getElem?
    intro shard
    rw [List.getElem?_set, List.getElem?_map, List.length_map, List.length_range]
    by_cases mine : n % config.segmentShards = shard
    · subst mine
      have moved := (striping config).cursor_succ_turn n
      simp only [striping] at moved
      simp [inside, standing, striping, moved, Nat.succ_mul]
    · rw [if_neg mine]
      cases at_shard : (List.range config.segmentShards)[shard]? with
      | none => simp [List.getElem?_map, at_shard]
      | some same =>
        obtain ⟨within, rfl⟩ := List.getElem?_eq_some_iff.mp at_shard
        rw [List.length_range] at within
        have stays := (striping config).cursor_succ_of_ne n within (Ne.symm mine)
        simp [within, standing, stays]
  · simp only [Allocation.append, turn, striped.current, full_iff, striped.next]
    rw [(striping config).opened_succ]
    split <;> rfl
  · simp only [Allocation.append, turn, striped.position, striped.lists]
    exact (dealt_snoc config numbered (item, n)).symm

/-- The whole loop numbers its items from `n` on. -/
theorem Striped.foldl {config : SegmentConfig} {n : ℕ} {numbered : List ((OffloadKey × ℕ) × ℕ)}
    {allocation : Allocation} (striped : Striped config n numbered allocation) {cursor index : ℕ}
    (turn : (cursor + index) % config.segmentShards = n % config.segmentShards)
    (items : List (OffloadKey × ℕ)) :
    Striped config (n + items.length) (numbered ++ items.zipIdx n)
      ((items.zipIdx index).foldl (Allocation.append config cursor) allocation) := by
  induction items generalizing n numbered allocation index with
  | nil => simpa using striped
  | cons item rest ih =>
    have nextTurn : (cursor + (index + 1)) % config.segmentShards = (n + 1) % config.segmentShards := by
      rw [← Nat.add_assoc, Nat.add_mod, turn, ← Nat.add_mod]
    have later := ih (striped.append turn item) nextTurn
    simpa [List.zipIdx_cons, Nat.add_assoc, Nat.add_comm 1] using later

/-- Grouping by shard loses nothing. -/
theorem dealt_perm (config : SegmentConfig) (numbered : List ((OffloadKey × ℕ) × ℕ)) :
    (dealt config numbered).flatten.Perm
      (numbered.map fun item => placed config item.2 item.1.1 item.1.2) := by
  induction numbered using List.reverseRecOn with
  | nil => simp [dealt]
  | append_singleton before item ih =>
    have inside : item.2 % config.segmentShards < (dealt config before).length := by
      simpa [dealt] using Nat.mod_lt _ config.segmentShards_pos
    rw [dealt_snoc, List.map_append]
    apply (flatten_modify_perm _ _ _ inside).trans
    exact (ih.cons _).trans (List.perm_append_singleton _ _).symm

/-! ### The metadata between two calls -/

/-- What the tables hold after `n` blocks have been planned. -/
inductive Recorded (config : SegmentConfig) (db : Database) : ℕ → Prop
  | fresh (noMetadata : db.metadata.items = []) (noRows : ∀ key, db.blocks.get? key = none) :
      Recorded config db 0
  | written {n : ℕ}
      (shards : ∀ shard < config.segmentShards, shard? db shard = some (standing config n shard))
      (next : db.metadata.get? .nextSegmentId = some ((striping config).opened n))
      (cursor : db.metadata.get? .shardCursor = some (n % config.segmentShards)) : Recorded config db n

/-- `_allocation_state` reads the state of the writer back. -/
theorem Recorded.allocationState {config : SegmentConfig} {db : Database} {n : ℕ}
    {used : Extent → Prop} (recorded : Recorded config db n) (tracked : Tracked db used) :
    db.allocationState config = ((List.range config.segmentShards).map (standing config n),
      (striping config).opened n, n % config.segmentShards) := by
  cases recorded with
  | fresh noMetadata noRows =>
    have unset : ∀ name, db.metadata.get? name = none := by
      intro name
      rw [Dict.get?_eq_none_iff, Dict.keys, noMetadata]
      simp
    have values : db.blocks.values = [] := by
      rw [List.eq_nil_iff_forall_not_mem]
      intro location member
      obtain ⟨key, row⟩ := Dict.mem_values_iff.mp member
      rw [noRows] at row
      cases row
    have latest : db.latestSegment = (0, 0) := by simp [Database.latestSegment, unset, values]
    have loop : ∀ rounds, (List.range (rounds + 1)).foldl
        (allocationStep db.metadata false (0, 0)) ([], 1) =
          ((List.range (rounds + 1)).map (standing config 0), rounds + 1) := by
      intro rounds
      induction rounds with
      | zero => simp [allocationStep, unset, standing]
      | succ rounds ih =>
        rw [List.range_succ, List.foldl_append, ih, List.map_append]
        simp [allocationStep, unset, standing]
    obtain ⟨rounds, shards⟩ := Nat.exists_eq_succ_of_ne_zero config.segmentShards_pos.ne'
    have opened : (striping config).opened 0 = rounds + 1 := by
      rw [Striping.opened_zero]
      exact shards
    simp [Database.allocationState, Dict.contains, unset, latest, shards, loop, opened]
  | written shards next cursor =>
    have described : ∃ f, Describes db f := by
      rcases tracked with ⟨noMetadata, _⟩ | ⟨f, describes, _⟩
      · have member := Dict.get?_eq_some_iff.mp next
        rw [noMetadata] at member
        cases member
      · exact ⟨f, describes⟩
    obtain ⟨f, describes⟩ := described
    have same : f.next = (striping config).opened n := Option.some.inj (describes.next.symm.trans next)
    have largest := describes.largest
    rw [same] at largest
    have loop : ∀ rounds ≤ config.segmentShards, (List.range rounds).foldl
        (allocationStep db.metadata true (0, 0)) ([], (striping config).opened n) =
          ((List.range rounds).map (standing config n), (striping config).opened n) := by
      intro rounds
      induction rounds with
      | zero => simp
      | succ rounds ih =>
        intro inside
        obtain ⟨segmentId, segmentOffset⟩ := shard?_eq_some_iff.mp (shards rounds inside)
        rw [List.range_succ, List.foldl_append, ih (Nat.le_of_succ_le inside), List.map_append]
        simp [allocationStep, segmentId, segmentOffset]
    simp [Database.allocationState, describes.first, next, largest, loop _ le_rfl, cursor]

/-- What `prepare_store` reserves, and that it records it. -/
theorem Recorded.reserve {config : SegmentConfig} {db db' : Database} {n : ℕ} {used : Extent → Prop}
    (recorded : Recorded config db n) (tracked : Tracked db used) {unique : Dict OffloadKey ℕ}
    {plan : SegmentStorePlan} (reserved : (plan, db') = db.reserve config unique) :
    plan.entries = (dealt config (unique.items.zipIdx n)).flatten ∧
      Recorded config db' (n + unique.items.length) := by
  have state := recorded.allocationState tracked
  have start : Striped config n [] ⟨(List.range config.segmentShards).map (standing config n),
      (striping config).opened n, List.replicate config.segmentShards []⟩ := by
    refine ⟨rfl, rfl, ?_⟩
    simp [dealt]
  have turn : (n % config.segmentShards + 0) % config.segmentShards = n % config.segmentShards := by simp
  have done := start.foldl turn unique.items
  rw [List.nil_append] at done
  simp only [Database.reserve, state] at reserved
  obtain ⟨rfl, rfl⟩ := Prod.mk.inj reserved
  refine ⟨by rw [done.lists], .written ?_ ?_ ?_⟩
  · intro shard inside
    have read := get?_metadataRows db.metadata
    rw [shard?_eq_some_iff, (read _ _ _ shard).2.1, (read _ _ _ shard).2.2, done.shards]
    simp [inside]
  · rw [(get?_metadataRows db.metadata _ _ _ 0).1, done.next]
  · rw [get?_metadataRows_cursor, Dict.size, Nat.mod_add_mod]

/-! ### What one call plans -/

/-- The keys that are not visible, once each in the order of their first occurrence, with the block that
occurrence is given. -/
def freshBlocks (keys : List OffloadKey) (blockIds : List ℕ) (visible : OffloadKey → Bool) :
    List (OffloadKey × ℕ) :=
  (keys.filter fun key => !visible key).eraseDups.map fun key => (key, blockIds.getD (keys.idxOf key) 0)

theorem items_uniqueUnstored {keys : List OffloadKey} {blockIds : List ℕ} (visible : OffloadKey → Bool)
    (same : keys.length = blockIds.length) :
    (uniqueUnstored keys blockIds (keys.map visible)).items = freshBlocks keys blockIds visible := by
  -- from a dictionary that already has some keys, the loop appends the others
  have loop : ∀ start : Dict OffloadKey ℕ,
      ((keys.zip (blockIds.zip (keys.map visible))).foldl (fun unique item =>
        if item.2.2 then unique else unique.insertOrIgnore item.1 item.2.1) start).items =
      start.items ++ (keys.filter fun key => !visible key && decide (key ∉ start.keys)).eraseDups.map
        fun key => (key, blockIds.getD (keys.idxOf key) 0) := by
    induction keys generalizing blockIds with
    | nil => simp
    | cons head rest ih =>
      intro start
      cases blockIds with
      | nil => simp at same
      | cons blockId blockIds =>
        have later : ∀ others : List OffloadKey, (∀ key ∈ others, key ≠ head) →
            (others.map fun key => (key, blockIds.getD (rest.idxOf key) 0)) =
              others.map fun key => (key, (blockId :: blockIds).getD ((head :: rest).idxOf key) 0) := by
          intro others differ
          apply List.map_congr_left
          intro key member
          rw [List.idxOf_cons_ne _ (Ne.symm (differ key member)), List.getD_cons_succ]
        simp only [List.map_cons, List.zip_cons_cons, List.foldl_cons]
        rw [ih (by simpa using same)]
        cases wanted : !visible head && decide (head ∉ start.keys) with
        | false =>
          have kept : (if visible head then start else start.insertOrIgnore head blockId) = start := by
            split
            · rfl
            · next hidden =>
              have present : head ∈ start.keys := by simpa [hidden] using wanted
              rw [Dict.insertOrIgnore, if_pos (Dict.contains_iff.mpr present)]
          rw [kept, List.filter_cons_of_neg (by simpa using wanted), later]
          rintro key member rfl
          simp only [List.mem_eraseDups, List.mem_filter, wanted, Bool.false_eq_true, and_false] at member
        | true =>
          obtain ⟨hidden, absent⟩ := Bool.and_eq_true_iff.mp wanted
          have hidden : visible head = false := by simpa using hidden
          have absent : head ∉ start.keys := by simpa using absent
          have items : (if visible head then start else start.insertOrIgnore head blockId).items =
              start.items ++ [(head, blockId)] := by
            rw [hidden, if_neg Bool.false_ne_true, Dict.items_insertOrIgnore, if_neg absent]
          have keys : (if visible head then start else start.insertOrIgnore head blockId).keys =
              start.keys ++ [head] := by
            rw [Dict.keys, items, List.map_append]
            rfl
          have others : (rest.filter fun key => !visible key && decide
                (key ∉ (if visible head then start else start.insertOrIgnore head blockId).keys)) =
              (rest.filter fun key => !visible key && decide (key ∉ start.keys)).filter
                fun key => !key == head := by
            rw [List.filter_filter]
            apply List.filter_congr
            intro key _
            cases visible key <;> simp [keys, Bool.and_comm, beq_eq_decide]
          rw [List.filter_cons_of_pos (by simp [hidden, absent]), List.eraseDups_cons, List.map_cons, items, others,
            later, List.idxOf_cons_self, List.getD_cons_zero, List.append_assoc, List.singleton_append]
          rintro key member rfl
          simp at member
  have all := loop Dict.empty
  simp only [Dict.empty, Dict.keys, List.nil_append, List.map_nil, List.not_mem_nil, not_false_eq_true,
    decide_true, Bool.and_true] at all
  exact all

/-- `prepare_store` reserves the fresh blocks, or has none. -/
theorem prepareStore_fresh {store store' : SegmentStore} {db db' : Database} {keys : List OffloadKey}
    {blockIds : List ℕ} {plan : SegmentStorePlan}
    (returned : store.prepareStore db keys blockIds = .ok (plan, db', store')) :
    let fresh := freshBlocks keys blockIds fun key =>
      store.locationCache.contains key || db.blocks.contains key
    (fresh = [] ∧ plan = ⟨[]⟩ ∧ db' = db) ∨
      ∃ unique, unique.items = fresh ∧ (plan, db') = db.reserve store.config unique := by
  intro fresh
  unfold SegmentStore.prepareStore at returned
  split at returned
  · cases returned
  · next same =>
    have items := items_uniqueUnstored
      (fun key => store.locationCache.contains key || db.blocks.contains key) (not_not.mp same)
    rw [← SegmentStore.containsMany_fst] at items
    split at returned
    · next noKeys =>
      obtain rfl := List.isEmpty_iff.mp noKeys
      cases returned
      exact .inl ⟨rfl, rfl, rfl⟩
    · dsimp only at returned
      split at returned
      · next nothing =>
        cases returned
        exact .inl ⟨items.symm.trans (List.isEmpty_iff.mp nothing), rfl, rfl⟩
      · cases returned
        exact .inr ⟨_, items, rfl⟩

/-- An entry writes the block that was given for the first occurrence of its key. -/
theorem block_of_prepared {store store' : SegmentStore} {db db' : Database} {keys : List OffloadKey}
    {blockIds : List ℕ} {plan : SegmentStorePlan}
    (prepared : store.prepareStore db keys blockIds = .ok (plan, db', store')) {entry : SegmentWrite}
    (planned : entry ∈ plan.entries) : blockIds[keys.idxOf entry.key]? = some entry.blockId := by
  have same : keys.length = blockIds.length := by
    by_contra differ
    rw [SegmentStore.prepareStore, if_pos differ] at prepared
    cases prepared
  rcases prepareStore_fresh prepared with ⟨_, rfl, _⟩ | ⟨unique, fresh, reserved⟩
  · cases planned
  · have listed : (entry.key, entry.blockId) ∈ unique.items := by
      rw [← (reserve_entries_perm db store.config unique).mem_iff, ← reserved]
      exact List.mem_map_of_mem planned
    rw [fresh] at listed
    obtain ⟨key, member, equal⟩ := List.mem_map.mp listed
    obtain ⟨rfl, block⟩ := Prod.mk.inj equal
    have inKeys : entry.key ∈ keys := List.mem_of_mem_filter (List.mem_eraseDups.mp member)
    have inside : keys.idxOf entry.key < blockIds.length := same ▸ List.idxOf_lt_length_of_mem inKeys
    rw [← block, List.getD_eq_getElem?_getD, List.getElem?_eq_getElem inside, Option.getD_some]

/-- The plan of one call, numbered from the blocks planned before it. -/
theorem Recorded.prepareStore {store store' : SegmentStore} {db db' : Database} {n : ℕ}
    {used : Extent → Prop} (recorded : Recorded store.config db n) (tracked : Tracked db used)
    {keys : List OffloadKey} {blockIds : List ℕ} {plan : SegmentStorePlan}
    (returned : store.prepareStore db keys blockIds = .ok (plan, db', store')) :
    let fresh := freshBlocks keys blockIds fun key =>
      store.locationCache.contains key || db.blocks.contains key
    plan.entries = (dealt store.config (fresh.zipIdx n)).flatten ∧
      Recorded store.config db' (n + fresh.length) := by
  intro fresh
  rcases prepareStore_fresh returned with ⟨nothing, rfl, rfl⟩ | ⟨unique, items, reserved⟩
  · rw [show fresh = [] from nothing]
    exact ⟨by simp [dealt], by simpa using recorded⟩
  · have spec := recorded.reserve tracked reserved
    rwa [items] at spec

/-! ### Runs -/

variable {ι : Type}

/-- The event opens no store with other arguments. -/
def Agrees (config : SegmentConfig) : StoreEvent ι → Prop
  | .restart _ opened => opened = config
  | _ => True

/-- How many of the issued blocks are in segments of the shard. -/
def shardLoad (config : SegmentConfig) (s : SharedStore ι) (shard : ℕ) : ℕ :=
  s.issued.countP fun issue => issue.entry.segmentId % config.segmentShards = shard

/-- The invariant of the runs of instances that agree on their arguments. -/
structure Uniform (config : SegmentConfig) (s : SharedStore ι) : Prop where
  agree : ∀ process, (s.store process).config = config
  recorded : Recorded config s.db s.issued.length
  places : (s.issued.map fun issue => (issue.entry.segmentId, issue.entry.offset)).Perm
    ((List.range s.issued.length).map fun n =>
      (((striping config).place n).1, ((striping config).place n).2 * config.blockSize))

theorem uniform_init (config : SegmentConfig) :
    Uniform config (.init .empty fun _ : ι => config) where
  agree _ := rfl
  recorded := .fresh rfl (fun _ => rfl)
  places := .refl _

/-- The load of a shard is the number of blocks it was dealt. -/
theorem Uniform.shardLoad {config : SegmentConfig} {s : SharedStore ι} (uniform : Uniform config s)
    {shard : ℕ} (inside : shard < config.segmentShards) :
    shardLoad config s shard = (striping config).load s.issued.length shard := by
  have counted := uniform.places.countP_eq fun place => place.1 % config.segmentShards = shard
  simp only [List.countP_map, Function.comp_def] at counted
  rw [Placement.shardLoad, counted, ← (striping config).countP_turn _ inside]
  apply List.countP_congr
  intro n _
  have own : ((striping config).place n).1 % config.segmentShards = n % config.segmentShards := by
    simp [Striping.place, Striping.container, striping]
  rw [own]
  rfl

/-- A shard that has left a segment has filled all of it. -/
theorem Uniform.filled {config : SegmentConfig} {s : SharedStore ι} (uniform : Uniform config s)
    {shard j j' slot : ℕ} (inside : shard < config.segmentShards) (left : j < j')
    (later : ∃ issue ∈ s.issued, issue.entry.segmentId = segmentOf config shard j')
    (within : slot < config.segmentSizeBytes / config.blockSize) :
    ∃ issue ∈ s.issued, issue.entry.segmentId = segmentOf config shard j ∧
      issue.entry.offset = slot * config.blockSize := by
  obtain ⟨issue, issued, segment⟩ := later
  obtain ⟨n, number, place⟩ := List.mem_map.mp
    (uniform.places.mem_iff.mp (List.mem_map_of_mem (f := fun issue : Issue =>
      (issue.entry.segmentId, issue.entry.offset)) issued))
  have same : (striping config).container (n % config.segmentShards)
      (n / config.segmentShards / (striping config).slots) = (striping config).container shard j' :=
    (congrArg Prod.fst place).trans segment
  obtain ⟨turn, row⟩ := (striping config).container_injective (Nat.mod_lt n config.segmentShards_pos)
    inside same
  obtain ⟨m, earlier, at_m⟩ := (striping config).exists_of_left turn (row ▸ left) within
  have placed := uniform.places.mem_iff.mpr
    (List.mem_map_of_mem (List.mem_range.mpr (earlier.trans (List.mem_range.mp number))))
  rw [at_m] at placed
  obtain ⟨other, member, equal⟩ := List.mem_map.mp placed
  exact ⟨other, member, congrArg Prod.fst equal, congrArg Prod.snd equal⟩

/-- An operation that writes no metadata, and no row before the first block is planned. -/
theorem Recorded.congr {config : SegmentConfig} {db db' : Database} {n : ℕ}
    (recorded : Recorded config db n) (metadata : db'.metadata = db.metadata)
    (rows : n = 0 → (∀ key, db.blocks.get? key = none) → ∀ key, db'.blocks.get? key = none) :
    Recorded config db' n := by
  cases recorded with
  | fresh noMetadata noRows => exact .fresh (metadata ▸ noMetadata) (rows rfl noRows)
  | written shards next cursor =>
    refine .written ?_ ?_ ?_
    · intro shard inside
      rw [← shards shard inside]
      simp only [shard?, metadata]
    · rw [metadata, next]
    · rw [metadata, cursor]

variable [DecidableEq ι]

theorem Uniform.update {config : SegmentConfig} {s : SharedStore ι} (uniform : Uniform config s)
    {process : ι} {db : Database} {store : SegmentStore} (metadata : db.metadata = s.db.metadata)
    (kept : store.config = (s.store process).config)
    (rows : s.issued = [] → (∀ key, s.db.blocks.get? key = none) → ∀ key, db.blocks.get? key = none) :
    Uniform config (s.update process db store) where
  agree other := by
    rcases eq_or_ne other process with rfl | differ
    · simp [kept, uniform.agree]
    · simp [differ, uniform.agree]
  recorded := uniform.recorded.congr metadata fun none => rows (List.eq_nil_of_length_eq_zero none)
  places := uniform.places

/-- The blocks of a call get the places that follow those of the calls before. -/
theorem Uniform.prepared {config : SegmentConfig} {s : SharedStore ι} (uniform : Uniform config s)
    (safe : SharedStore.Safe s) {process : ι} {keys : List OffloadKey} {blockIds : List ℕ}
    {plan : SegmentStorePlan} {db : Database} {store : SegmentStore}
    (returned : (s.store process).prepareStore s.db keys blockIds = .ok (plan, db, store)) :
    Uniform config (s.prepared process plan db store) := by
  have recorded := uniform.recorded
  rw [← uniform.agree process] at recorded
  obtain ⟨entries, after⟩ := recorded.prepareStore safe.tracked returned
  rw [uniform.agree process] at entries after
  set fresh := freshBlocks keys blockIds _
  have perm := dealt_perm config (fresh.zipIdx s.issued.length)
  rw [← entries] at perm
  have count : plan.entries.length = fresh.length := by simpa using perm.length_eq
  refine ⟨?_, ?_, ?_⟩
  · intro other
    rcases eq_or_ne other process with rfl | differ
    · simp [(prepareStore_cases returned).1, uniform.agree]
    · simp [differ, uniform.agree]
  · simpa [count] using after
  · have numbers : (fresh.zipIdx s.issued.length).map Prod.snd =
        (List.range fresh.length).map (s.issued.length + ·) := by
      rw [List.zipIdx_map_snd, List.range'_eq_map_range]
    have added := perm.map fun entry => (entry.segmentId, entry.offset)
    simp only [List.map_map, Function.comp_def, placed_eq] at added
    simp only [SharedStore.prepared_issued, List.map_append, List.map_map, Function.comp_def,
      List.length_append, List.length_map, count, List.range_add]
    refine uniform.places.append (added.trans (.of_eq ?_))
    have split := congrArg (List.map fun n => (((striping config).place n).1,
      ((striping config).place n).2 * config.blockSize)) numbers
    simpa only [List.map_map, Function.comp_def] using split

theorem Uniform.step {config : SegmentConfig} {s t : SharedStore ι} {event : StoreEvent ι}
    (uniform : Uniform config s) (safe : SharedStore.Safe s) (agrees : Agrees config event)
    (moved : s.step event = some t) : Uniform config t := by
  -- before the first block is planned, the plans of a process are empty
  have nothing : ∀ process, ∀ plan ∈ s.plans process, s.issued = [] → plan.entries = [] := by
    intro process plan given none
    rw [List.eq_nil_iff_forall_not_mem]
    intro entry inside
    obtain ⟨issue, issued, _⟩ := safe.planned process plan given entry inside
    rw [none] at issued
    cases issued
  have indexed : ∀ process, ∀ plan ∈ s.plans process, s.issued = [] →
      (∀ key, s.db.blocks.get? key = none) →
        ∀ blockSize key, (s.db.indexPlan blockSize plan).blocks.get? key = none := by
    intro process plan given none noRows blockSize key
    rw [Database.get?_indexPlan, noRows, nothing process plan given none]
    rfl
  cases SharedStore.moves_of_step moved with
  | getLocations => exact uniform.update rfl rfl fun _ noRows => noRows
  | prepareStore returned => exact uniform.prepared safe returned
  | completeNothing => exact uniform.update rfl rfl fun _ noRows => noRows
  | completeStore given =>
    exact uniform.update rfl rfl fun none noRows key => indexed _ _ given none noRows _ key
  | completeRaised given =>
    exact uniform.update rfl rfl fun none noRows key => indexed _ _ given none noRows _ key
  | @delete process keys =>
    refine uniform.update rfl rfl fun _ noRows key => ?_
    have deleted := (s.store process).delete_blocks s.db keys key
    rw [noRows, ite_self] at deleted
    exact deleted
  | @restart process opened =>
    refine ⟨?_, uniform.recorded, uniform.places⟩
    intro other
    rcases eq_or_ne other process with rfl | differ
    · simpa [SegmentStore.init] using (show opened = config from agrees)
    · simp [differ, uniform.agree]

theorem uniform_of_run {config : SegmentConfig} {events : List (StoreEvent ι)} {s : SharedStore ι}
    (run : Run (Steps SharedStore.step) (.init .empty fun _ => config) events s)
    (agree : ∀ event ∈ events, Agrees config event) : Uniform config s := by
  have both : SharedStore.Safe s ∧ Uniform config s := by
    refine run.preserves (fun s => SharedStore.Safe s ∧ Uniform config s) ?_ ?_
    · exact ⟨SharedStore.safe_init _ _ rfl, uniform_init config⟩
    · rintro source event target member ⟨safe, uniform⟩ moved
      exact ⟨safe.step moved, uniform.step safe (agree event member) moved⟩
  exact both.2

/-- Instances with equal arguments, on a directory that was empty: a call plans one write for each key that
is not visible, and the `n`-th block ever planned gets the `n`-th place. So shards are evenly loaded, no
two of them share a segment, and a segment that its shard has left is full. -/
theorem placement_law {config : SegmentConfig} {events : List (StoreEvent ι)} {s : SharedStore ι}
    (run : Run (Steps SharedStore.step) (.init .empty fun _ => config) events s)
    (agree : ∀ event ∈ events, Agrees config event) :
    (∀ process keys blockIds plan db store,
      (s.store process).prepareStore s.db keys blockIds = .ok (plan, db, store) →
        let numbered := (freshBlocks keys blockIds fun key =>
          (s.store process).locationCache.contains key || s.db.blocks.contains key).zipIdx s.issued.length
        plan.entries = (dealt config numbered).flatten ∧
          plan.entries.Perm (numbered.map fun item => placed config item.2 item.1.1 item.1.2)) ∧
    (∀ shard shard' j j', shard < config.segmentShards → shard' < config.segmentShards →
      segmentOf config shard j = segmentOf config shard' j' → shard = shard' ∧ j = j') ∧
    (∀ shard shard', shard < config.segmentShards → shard' < config.segmentShards →
      shardLoad config s shard ≤ shardLoad config s shard' + 1) ∧
    ∀ shard j j' slot, shard < config.segmentShards → j < j' →
      (∃ issue ∈ s.issued, issue.entry.segmentId = segmentOf config shard j') →
      slot < config.segmentSizeBytes / config.blockSize →
        ∃ issue ∈ s.issued, issue.entry.segmentId = segmentOf config shard j ∧
          issue.entry.offset = slot * config.blockSize := by
  have uniform := uniform_of_run run agree
  have safe := SharedStore.safe_of_run rfl run
  refine ⟨?_, ?_, ?_, ?_⟩
  · intro process keys blockIds plan db store returned numbered
    have recorded := uniform.recorded
    rw [← uniform.agree process] at recorded
    have entries := (recorded.prepareStore safe.tracked returned).1
    rw [uniform.agree process] at entries
    exact ⟨entries, entries ▸ dealt_perm config numbered⟩
  · intro shard shard' j j' inside inside' same
    exact (striping config).container_injective inside inside' same
  · intro shard shard' inside inside'
    rw [uniform.shardLoad inside, uniform.shardLoad inside']
    exact (striping config).load_le_load_succ _ _ _
  · intro shard j j' slot inside left later within
    exact uniform.filled inside left later within

/-- Two shards with segments of two blocks. -/
def narrowConfig : SegmentConfig := ⟨4, 8, 2, Nat.succ_pos 3, Nat.le_add_right 4 4, ⟨2, rfl⟩, Nat.succ_pos 1⟩

/-- Two instances plan nine blocks in three calls; the first call repeats a key. -/
def rolloverTape : List (StoreEvent Bool) :=
  [.prepareStore false [[1], [2], [1], [3]] [0, 1, 2, 3], .delete true [[1]],
    .prepareStore true [[4], [5], [6], [7], [8]] [0, 1, 2, 3, 4], .restart false narrowConfig,
    .prepareStore false [[9]] [0]]

theorem placement_law_rollover : ∃ s : SharedStore Bool,
    Run (Steps SharedStore.step) (.init .empty fun _ => narrowConfig) rolloverTape s ∧
      s.issued.length = 9 ∧ shardLoad narrowConfig s 0 ≤ shardLoad narrowConfig s 1 + 1 := by
  have executed : ((replay SharedStore.step (.init .empty fun _ => narrowConfig) rolloverTape).map
      fun s => s.issued.length) = some 9 := by decide
  obtain ⟨s, replayed, count⟩ := Option.map_eq_some_iff.mp executed
  have run := Run.of_replay replayed
  have agree : ∀ event ∈ rolloverTape, Agrees narrowConfig event := by simp [rolloverTape, Agrees]
  exact ⟨s, run, count, (placement_law run agree).2.2.1 0 1 (by decide) (by decide)⟩

end KVTiering.Soundness.Placement
