import KVTiering.Soundness.MemoryFrame

/-! # End-to-end integrity of the block files

Processes of either layout share the block files: in the segment layout a load reads the file of a key without a
location. Whatever they do, a block file holds what it held at the start or a block that a store job read for its
key. A load reported as a success has brought to such a block what the file of its key held at some point since the
load was submitted, and the keys of a store reported as a success had a file at some point since the store was.
-/

namespace KVTiering.Soundness

open Model

/-- The calls of `load_many` read segments or raise. -/
theorem kinds_loadEntries {io : IoConfig} {entries : List (SegmentLocation × Slice)} {state : IoState} {call : IoCall}
    (member : call ∈ loadEntries io state entries) : call ∈ state.calls ∨
      (∃ segmentId offset views, call = .preadv segmentId offset views) ∨ ∃ error, call = .raise error := by
  induction entries generalizing state with
  | nil =>
    rcases calls_flush member with old | ⟨segmentId, offset, views, _, same⟩
    · exact .inl old
    · exact .inr (.inl ⟨segmentId, offset, views, same⟩)
  | cons entry rest ih =>
    obtain ⟨location, destination⟩ := entry
    rw [loadEntries] at member
    split at member
    · rcases List.mem_append.mp member with old | raised
      · exact .inl old
      · exact .inr (.inr ⟨_, List.mem_singleton.mp raised⟩)
    · rcases ih member with earlier | later
      · rcases calls_add earlier with old | ⟨segmentId, offset, views, _, same⟩
        · exact .inl old
        · exact .inr (.inl ⟨segmentId, offset, views, same⟩)
      · exact .inr later

namespace Cluster

open ThreadPool

variable {ι : Type}

/-- The data is a block that a store job of the file layout read for the key. -/
def FromStore (blockSize : ℕ) (c : Cluster ι) (key : OffloadKey) (data : List UInt8) : Prop :=
  ∃ (process : ι) (reference : ℕ) (metadata : JobMetadata) (plan : SegmentStorePlan) (source : List UInt8)
      (blockId : ℕ),
    (c.jobs process)[reference]? = some (.store metadata plan source) ∧ (c.config process).storageLayout = .file ∧
    (key, blockId) ∈ metadata.keys.zip metadata.blockIds ∧ data = readAt source (blockId * blockSize) blockSize

/-- The blocks of a job are in the primary tier, and those of a load are distinct. -/
def Placed (blockSize size : ℕ) : TierJob → Prop
  | .store metadata _ source =>
    source.length = size ∧ ∀ blockId ∈ metadata.blockIds, blockId * blockSize + blockSize ≤ size
  | .load metadata _ =>
    metadata.blockIds.Nodup ∧ ∀ blockId ∈ metadata.blockIds, blockId * blockSize + blockSize ≤ size

/-- The file of the key is still to be written by a task of the job, unless it is there. -/
def Storing (c : Cluster ι) (process : ι) (reference : ℕ) (key : OffloadKey) : Prop :=
  ∃ task source, Live (c.pool process) reference task ∧ (task.calls = [.pathExists key, .replaceFile key source] ∨
    task.calls = [.replaceFile key source])

/-- The file of the key is still to be read by a task of the job. -/
def Reading (blockSize : ℕ) (c : Cluster ι) (process : ι) (reference : ℕ) (key : OffloadKey) (blockId : ℕ) : Prop :=
  ∃ task, Live (c.pool process) reference task ∧
    task.calls = [.readv key ⟨blockId * blockSize, blockSize⟩ blockSize]

variable [DecidableEq ι]

/-! ## Files -/

/-- The files that a step changes: none, or some are removed, or a task of a store replaces one. -/
theorem files_of_step {c d : Cluster ι} {event : ClusterEvent ι} (moved : c.step event = some d) :
    (∀ key, d.files key = c.files key ∨ d.files key = none) ∨
      ∃ process reference task key source calls, Live (c.pool process) reference task ∧
        task.calls = .replaceFile key source :: calls ∧
        d.files = Function.update c.files key (some (gather (c.memory process) [source])) := by
  have removed : ∀ key other, (c.setFile key none).files other = c.files other ∨
      (c.setFile key none).files other = none := by
    intro key other
    rcases eq_or_ne other key with rfl | differ
    · exact .inr (Function.update_self ..)
    · exact .inl (Function.update_of_ne differ ..)
  cases step_moves moved with
  | stored | overwritten | polled | opened => exact .inl fun _ => .inl rfl
  | unlinked => exact .inl (removed _)
  | @worked acting index action outcome worker middle pool found effect stepped =>
    have listed := List.mem_of_getElem? found
    generalize standing : worker.state = source at effect
    cases effect with
    | @performed task reference call calls _ next performed =>
      cases call with
      | replaceFile key source =>
        cases performed
        exact .inr ⟨acting, reference, task, key, source, calls, .inr ⟨worker, listed, standing⟩, next, rfl⟩
      | pwritev | preadv | raise | pathExists | readv =>
        left
        cases transferred_of_made (.inl performed) <;> exact fun _ => .inl rfl
    | @failed task reference transferred call calls next =>
      left
      cases call with
      | replaceFile => exact fun _ => .inl rfl
      | readv key destination blockSize =>
        simp only [Cluster.fail]
        split <;> exact fun _ => .inl rfl
      | pwritev | preadv | raise | pathExists => exact fun _ => .inl rfl
    | @handled task _ _ _ _ handled =>
      left
      cases handler : task.handler with
      | reraise =>
        rw [handler] at handled
        cases handled
        exact fun _ => .inl rfl
      | delete =>
        rw [handler] at handled
        obtain ⟨_, _, _, rfl⟩ := storeStep_cases handled
        exact fun _ => .inl rfl
      | remove key =>
        rw [handler] at handled
        cases handled
        exact removed key
    | completed _ stored | committed _ stored =>
      obtain ⟨_, _, _, rfl⟩ := storeStep_cases stored
      exact .inl fun _ => .inl rfl
    | ended | unhandled | rolledBack | none => exact .inl fun _ => .inl rfl

/-- A task that replaces a file is one of a store in the file layout. -/
theorem store_of_replaceFile {layout : StorageLayout} {io : IoConfig} {job : TierJob} {task : Task}
    (member : task ∈ (submission layout io job).tasks) {key : OffloadKey} {source : Slice}
    (listed : .replaceFile key source ∈ task.calls) : layout = .file ∧ ∃ metadata plan bytes blockId,
      job = .store metadata plan bytes ∧ (key, blockId) ∈ metadata.keys.zip metadata.blockIds ∧
        source = blockSlice io.viewSize io.blockSize blockId := by
  cases job with
  | store metadata plan bytes =>
    cases layout with
    | segment =>
      obtain ⟨_, _, _, same⟩ := calls_segmentStoreTasks member listed
      cases same
    | file =>
      obtain ⟨⟨key', blockId⟩, inZip, rfl⟩ := List.mem_map.mp member
      rcases List.mem_cons.mp listed with same | last
      · cases same
      · cases List.mem_singleton.mp last
        exact ⟨rfl, metadata, plan, bytes, blockId, rfl, inZip, rfl⟩
  | load metadata locations =>
    exfalso
    cases layout with
    | segment =>
      rcases mem_segmentLoadTasks.mp member with ⟨_, _, _, rfl⟩ | ⟨chunk, _, rfl⟩
      · cases List.mem_singleton.mp listed
      · rw [loadChunk_eq] at listed
        rcases kinds_loadEntries listed with old | ⟨_, _, _, same⟩ | ⟨_, same⟩
        · cases old
        · cases same
        · cases same
    | file =>
      obtain ⟨item, _, rfl⟩ := List.mem_map.mp member
      cases List.mem_singleton.mp listed

/-- A task that reads into a block whose key has no location reads the file of the key. -/
theorem reading_of_destination {layout : StorageLayout} {io : IoConfig} {metadata : JobMetadata}
    {locations : List (Option SegmentLocation)} {task : Task} (distinct : metadata.blockIds.Nodup)
    (member : task ∈ (submission layout io (.load metadata locations)).tasks) {call : IoCall}
    (listed : call ∈ task.calls) {key : OffloadKey} {blockId : ℕ}
    (inZip : (key, blockId, none) ∈ metadata.keys.zip (metadata.blockIds.zip locations)) {slice : Slice}
    (inCall : slice ∈ destinations call) :
    call = .readv key (blockSlice io.viewSize io.blockSize blockId) io.blockSize ∨
      ∃ other ∈ metadata.blockIds, other ≠ blockId ∧ slice = blockSlice io.viewSize io.blockSize other := by
  obtain ⟨key', other, inZip', rfl, how⟩ := destinations_load member listed inCall
  by_cases same : other = blockId
  · subst same
    left
    rcases how with rfl | ⟨location, located⟩
    · rw [zip_unique distinct inZip' (mem_zip_first_of_mem_zip_zip inZip)]
    · cases (zip_zip_unique distinct inZip located).2
  · exact .inr ⟨other, (List.of_mem_zip inZip').2, same, rfl⟩

/-! ## The invariant -/

/-- At some point of the run since the job was submitted, the file of the key held the data. -/
def SeenSince (blockSize : ℕ) (start : Cluster ι) (events : List (ClusterEvent ι)) (c : Cluster ι) (process : ι)
    (reference : ℕ) (key : OffloadKey) (data : List UInt8) : Prop :=
  ∃ before after middle, events = before ++ after ∧ Run (Promised blockSize) start before middle ∧
    Run (Promised blockSize) middle after c ∧ reference < (middle.jobs process).length ∧ middle.files key = some data

structure FileInv (blockSize : ℕ) (size : ι → ℕ) (start : Cluster ι) (events : List (ClusterEvent ι))
    (c : Cluster ι) : Prop where
  placed : ∀ (process : ι) (reference : ℕ) (job : TierJob), (c.jobs process)[reference]? = some job →
    Placed blockSize (size process) job
  /-- The blocks of a store in flight are as they were submitted. -/
  sources : ∀ (process : ι) (reference : ℕ) (metadata : JobMetadata) (plan : SegmentStorePlan) (source : List UInt8),
    (c.jobs process)[reference]? = some (.store metadata plan source) → InFlight (c.pool process) reference →
      ∀ blockId ∈ metadata.blockIds,
        slot blockSize c process blockId = readAt source (blockId * blockSize) blockSize
  contents : ∀ key data, c.files key = some data →
    data.length = blockSize ∧ (start.files key = some data ∨ FromStore blockSize c key data)
  /-- A key of a store has had a file, or one is still to be written, or the job has lost a task. -/
  stored : ∀ (process : ι) (reference : ℕ) (metadata : JobMetadata) (plan : SegmentStorePlan) (source : List UInt8),
    (c.jobs process)[reference]? = some (.store metadata plan source) → (c.config process).storageLayout = .file →
      ∀ key blockId, (key, blockId) ∈ metadata.keys.zip metadata.blockIds →
        (∃ data, SeenSince blockSize start events c process reference key data) ∨ Storing c process reference key ∨
          Lost (c.events process) (c.pool process) reference
  /-- A key of a load in flight has been read, or is still to be read, or the job has lost a task. -/
  loaded : ∀ (process : ι) (reference : ℕ) (metadata : JobMetadata) (locations : List (Option SegmentLocation)),
    (c.jobs process)[reference]? = some (.load metadata locations) → InFlight (c.pool process) reference →
      ∀ key blockId, (key, blockId, none) ∈ metadata.keys.zip (metadata.blockIds.zip locations) →
        SeenSince blockSize start events c process reference key (slot blockSize c process blockId) ∨
          Reading blockSize c process reference key blockId ∨ Lost (c.events process) (c.pool process) reference

/-- A step of a run that keeps the promise, from a state of which the invariant holds. -/
structure Advance (blockSize : ℕ) (size : ι → ℕ) (start : Cluster ι) (events : List (ClusterEvent ι)) (c : Cluster ι)
    (event : ClusterEvent ι) (d : Cluster ι) : Prop where
  run : Run (Promised blockSize) start events c
  promised : Promised blockSize c event d
  framed : Framed size c
  same : ∀ process, (c.config process).segments.blockSize = blockSize
  balanced : ∀ (process : ι) (reference : ℕ), (ledger (c.events process) (c.pool process) reference).Balanced
  inv : FileInv blockSize size start events c

namespace Advance

variable {blockSize : ℕ} {size : ι → ℕ} {start c d : Cluster ι} {events : List (ClusterEvent ι)}
  {event : ClusterEvent ι} {process : ι} {reference : ℕ}

theorem tasks (s : Advance blockSize size start events c event d) {task : Task}
    (live : Live (c.pool process) reference task) : ∃ job original, (c.jobs process)[reference]? = some job ∧
      original ∈ (submission (c.config process).storageLayout (ioOf c.config blockSize size process) job).tasks ∧
        task.calls <:+ original.calls := by
  have left := s.framed.tasks process reference task live
  rwa [s.same] at left

theorem io (s : Advance blockSize size start events c event d) (process : ι) :
    c.io process = ioOf c.config blockSize size process := by
  rw [s.framed.io, s.same]

theorem inFlight (s : Advance blockSize size start events c event d) {job : TierJob}
    (submitted : (c.jobs process)[reference]? = some job) (inFlight : InFlight (d.pool process) reference) :
    InFlight (c.pool process) reference := by
  rcases inFlight_moves s.promised.1 inFlight with before | fresh
  · exact before
  · have inside := (List.getElem?_eq_some_iff.mp submitted).1
    rw [fresh, s.framed.counted] at inside
    exact absurd inside (lt_irrefl _)

theorem lost (s : Advance blockSize size start events c event d) {job : TierJob}
    (submitted : (c.jobs process)[reference]? = some job)
    (lost : Lost (c.events process) (c.pool process) reference) :
    Lost (d.events process) (d.pool process) reference := by
  refine lost_moves s.promised.1 ?_ lost
  rw [s.framed.counted]
  exact (List.getElem?_eq_some_iff.mp submitted).1

/-- What was seen before the step has been seen. -/
theorem seen (s : Advance blockSize size start events c event d) {key : OffloadKey} {data : List UInt8}
    (seen : SeenSince blockSize start events c process reference key data) :
    SeenSince blockSize start (events ++ [event]) d process reference key data := by
  obtain ⟨before, after, middle, rfl, reached, later, submitted, held⟩ := seen
  exact ⟨before, after ++ [event], middle, by rw [List.append_assoc], reached, later.snoc s.promised, submitted, held⟩

/-- The file was there before the step. -/
theorem seen_before (s : Advance blockSize size start events c event d) {job : TierJob}
    (submitted : (c.jobs process)[reference]? = some job) {key : OffloadKey} {data : List UInt8}
    (held : c.files key = some data) : SeenSince blockSize start (events ++ [event]) d process reference key data :=
  ⟨events, [event], c, rfl, s.run, .single s.promised, (List.getElem?_eq_some_iff.mp submitted).1, held⟩

/-- The file is there after the step. -/
theorem seen_after (s : Advance blockSize size start events c event d) {job : TierJob}
    (submitted : (d.jobs process)[reference]? = some job) {key : OffloadKey} {data : List UInt8}
    (held : d.files key = some data) : SeenSince blockSize start (events ++ [event]) d process reference key data :=
  ⟨events ++ [event], [], d, by rw [List.append_nil], s.run.snoc s.promised, .nil,
    (List.getElem?_eq_some_iff.mp submitted).1, held⟩

theorem placed (s : Advance blockSize size start events c event d) {job : TierJob}
    (submitted : (d.jobs process)[reference]? = some job) : Placed blockSize (size process) job := by
  rcases job_of_step s.promised.1 submitted with old | ⟨_, opened⟩
  · exact s.inv.placed process reference job old
  · obtain ⟨metadata, opening, opens⟩ := opened.opens
    have valid := s.promised.2.1
    have sized := s.framed.sized process
    generalize d.shared = after at opens
    cases opens with
    | storeSegments | storeFiles => exact ⟨sized, fun blockId listed => sized ▸ valid blockId listed⟩
    | loadSegments | loadFiles => exact ⟨valid.1, fun blockId listed => sized ▸ valid.2 blockId listed⟩

/-! ### Stores -/

/-- A step of a worker of a store leaves the primary tiers alone. -/
theorem memory_of_store (s : Advance blockSize size start events c event d) {metadata : JobMetadata}
    {plan : SegmentStorePlan} {source : List UInt8}
    (submitted : (c.jobs process)[reference]? = some (.store metadata plan source))
    (works : Works c process reference event) : d.memory = c.memory := by
  rcases bytes_of_step s.promised.1 with ⟨_, memory⟩ | ⟨_, _, _, rfl, _⟩ |
    ⟨acting, job, task, call, calls, middle, works', live, next, made, _, memory⟩
  · exact memory
  · exact works.elim
  · obtain ⟨rfl, rfl⟩ := works_unique works works'
    obtain ⟨job, original, found, member, suffix⟩ := s.tasks live
    obtain rfl := Option.some.inj (submitted.symm.trans found)
    have nothing := destinations_store member (suffix.subset (by simp [next] : call ∈ task.calls))
    rcases memory_of_made made with unchanged | ⟨data, scattered⟩
    · rw [memory, unchanged]
    · rw [memory, scattered, nothing]
      exact Function.update_eq_self process c.memory

theorem sources (s : Advance blockSize size start events c event d) {metadata : JobMetadata}
    {plan : SegmentStorePlan} {source : List UInt8}
    (submitted : (d.jobs process)[reference]? = some (.store metadata plan source))
    (inFlight : InFlight (d.pool process) reference) {blockId : ℕ} (listed : blockId ∈ metadata.blockIds) :
    slot blockSize d process blockId = readAt source (blockId * blockSize) blockSize := by
  rcases job_of_step s.promised.1 submitted with old | ⟨_, opened⟩
  · have before := s.inFlight old inFlight
    rw [← s.inv.sources process reference metadata plan source old before blockId listed]
    by_cases works : Works c process reference event
    · rw [slot, s.memory_of_store old works, slot]
    · exact s.promised.2.2 _ _ _ old before works _ listed
  · obtain ⟨_, _, opens⟩ := opened.opens
    rw [slot, opened.memory]
    generalize d.shared = after at opens
    cases opens <;> rfl

/-- A file holds what it held before the step, or a block of the store that has replaced it. -/
theorem contents (s : Advance blockSize size start events c event d) {key : OffloadKey} {data : List UInt8}
    (held : d.files key = some data) :
    data.length = blockSize ∧ (start.files key = some data ∨ FromStore blockSize d key data) := by
  have earlier : c.files key = some data →
      data.length = blockSize ∧ (start.files key = some data ∨ FromStore blockSize d key data) := by
    intro before
    obtain ⟨whole, atStart | ⟨process, reference, metadata, plan, source, blockId, submitted, layout, rest⟩⟩ :=
      s.inv.contents key data before
    · exact ⟨whole, .inl atStart⟩
    · rw [← step_config s.promised.1] at layout
      exact ⟨whole, .inr ⟨process, reference, metadata, plan, source, blockId, job_kept s.promised.1 submitted, layout,
        rest⟩⟩
  rcases files_of_step s.promised.1 with unchanged |
    ⟨process, reference, task, key', slice, calls, live, next, replaced⟩
  · rcases unchanged key with same | gone
    · exact earlier (same ▸ held)
    · rw [gone] at held
      cases held
  · rcases eq_or_ne key key' with rfl | differ
    · obtain ⟨job, original, submitted, member, suffix⟩ := s.tasks live
      obtain ⟨layout, metadata, plan, source, blockId, rfl, inZip, rfl⟩ :=
        store_of_replaceFile member (suffix.subset (by simp [next] : .replaceFile key slice ∈ task.calls))
      have inBlocks := (List.of_mem_zip inZip).2
      obtain ⟨sized, inside⟩ := s.inv.placed process reference _ submitted
      have unchanged := s.inv.sources process reference metadata plan source submitted (inFlight_of_live live)
        blockId inBlocks
      have within := inside blockId inBlocks
      rw [replaced, Function.update_self,
        @blockSlice_of_inside (ioOf c.config blockSize size process) _ within] at held
      obtain rfl := Option.some.inj held
      have read : gather (c.memory process) [⟨blockId * blockSize, blockSize⟩] =
          readAt source (blockId * blockSize) blockSize := by
        rw [← unchanged, slot, gather, List.flatMap_cons, List.flatMap_nil, List.append_nil]
      change (gather (c.memory process) [⟨blockId * blockSize, blockSize⟩]).length = blockSize ∧
        (_ ∨ FromStore blockSize d key (gather (c.memory process) [⟨blockId * blockSize, blockSize⟩]))
      rw [read]
      refine ⟨by rw [length_readAt]; omega, .inr ?_⟩
      refine ⟨process, reference, metadata, plan, source, blockId, job_kept s.promised.1 submitted, ?_, inZip, rfl⟩
      rwa [step_config s.promised.1]
    · rw [replaced, Function.update_of_ne differ] at held
      exact earlier held

theorem storing (s : Advance blockSize size start events c event d) {job : TierJob}
    (submitted : (c.jobs process)[reference]? = some job) {key : OffloadKey}
    (storing : Storing c process reference key) :
    (∃ data, SeenSince blockSize start (events ++ [event]) d process reference key data) ∨
      Storing d process reference key ∨ Lost (d.events process) (d.pool process) reference := by
  obtain ⟨task, source, live, left⟩ := storing
  rcases live_performs s.promised.1 (s.balanced process reference) live with
    still | lost | ⟨call, rest, middle, performs, performed, files⟩ | ended
  · exact .inr (.inl ⟨task, source, still, left⟩)
  · exact .inr (.inr lost)
  · obtain ⟨calls, next, remains⟩ := performs.next
    rcases left with both | last
    · rw [both] at next
      obtain ⟨rfl, rfl⟩ := List.cons.inj next
      simp only [Cluster.rest] at remains
      cases present : c.files key with
      | some data => exact .inl ⟨data, s.seen_before submitted present⟩
      | none =>
        simp only [present, Option.isSome_none, Bool.false_eq_true, if_false] at remains
        exact .inr (.inl ⟨rest, source, performs.live, .inr remains⟩)
    · rw [last] at next
      obtain ⟨rfl, rfl⟩ := List.cons.inj next
      obtain rfl := Option.some.inj performed
      have held : d.files key = some (gather (c.memory process) [source]) := by
        rw [files]
        exact Function.update_self ..
      exact .inl ⟨_, s.seen_after (job_kept s.promised.1 submitted) held⟩
  · rcases left with both | last
    · simp [ended] at both
    · simp [ended] at last

theorem stored (s : Advance blockSize size start events c event d) {metadata : JobMetadata} {plan : SegmentStorePlan}
    {source : List UInt8} (submitted : (d.jobs process)[reference]? = some (.store metadata plan source))
    (layout : (d.config process).storageLayout = .file) {key : OffloadKey} {blockId : ℕ}
    (inZip : (key, blockId) ∈ metadata.keys.zip metadata.blockIds) :
    (∃ data, SeenSince blockSize start (events ++ [event]) d process reference key data) ∨
      Storing d process reference key ∨ Lost (d.events process) (d.pool process) reference := by
  rw [step_config s.promised.1] at layout
  rcases job_of_step s.promised.1 submitted with old | ⟨first, opened⟩
  · rcases s.inv.stored process reference metadata plan source old layout key blockId inZip with
      ⟨data, seen⟩ | storing | lost
    · exact .inl ⟨data, s.seen seen⟩
    · exact s.storing old storing
    · exact .inr (.inr (s.lost old lost))
  · -- the job is submitted by this step, and all of its tasks are queued
    have live := opened.live (storeBlock (c.io process) key blockId) (by
      rw [layout]
      exact List.mem_map_of_mem inZip)
    rw [s.framed.counted, ← first] at live
    exact .inr (.inl ⟨_, _, live, .inl rfl⟩)

/-! ### Loads -/

/-- The call that reads a file leaves in the block what the file holds. -/
theorem slot_of_readv (s : Advance blockSize size start events c event d) {key : OffloadKey} {blockId : ℕ}
    {middle : Cluster ι} (performed : c.perform process (.readv key ⟨blockId * blockSize, blockSize⟩ blockSize) =
      some middle) : c.files key = some (slot blockSize middle process blockId) := by
  simp only [Cluster.perform] at performed
  split at performed
  · cases performed
  · next bytes held =>
    split at performed
    · cases performed
    · cases performed
      have whole := (s.inv.contents key bytes held).1
      have taken : bytes.take blockSize = bytes := List.take_of_length_le whole.le
      have read := readAt_of_holds (holds_writeAt (c.memory process) (blockId * blockSize) bytes)
      rw [whole] at read
      simp only [held, slot, Cluster.setMemory, Function.update_self, scatter, taken, read]

/-- A call of a load leaves a block whose key has no location alone, or reads the file of the key into it. -/
theorem slot_of_performed (s : Advance blockSize size start events c event d) {metadata : JobMetadata}
    {locations : List (Option SegmentLocation)}
    (submitted : (c.jobs process)[reference]? = some (.load metadata locations)) {task : Task} {call : IoCall}
    (live : Live (c.pool process) reference task) (listed : call ∈ task.calls) {middle : Cluster ι}
    (performed : c.perform process call = some middle) {key : OffloadKey} {blockId : ℕ}
    (inZip : (key, blockId, none) ∈ metadata.keys.zip (metadata.blockIds.zip locations)) :
    slot blockSize middle process blockId = slot blockSize c process blockId ∨
      c.files key = some (slot blockSize middle process blockId) := by
  obtain ⟨distinct, inside⟩ := s.inv.placed process reference _ submitted
  have sliced : ∀ other ∈ metadata.blockIds, blockSlice (size process) blockSize other =
      ⟨other * blockSize, blockSize⟩ := fun other named =>
    @blockSlice_of_inside (ioOf c.config blockSize size process) _ (inside other named)
  have named := (List.of_mem_zip (List.of_mem_zip inZip).2).1
  obtain ⟨job, original, found, member, suffix⟩ := s.tasks live
  obtain rfl := Option.some.inj (submitted.symm.trans found)
  by_cases reading : call = .readv key ⟨blockId * blockSize, blockSize⟩ blockSize
  · rw [reading] at performed
    exact .inr (s.slot_of_readv performed)
  · left
    rcases memory_of_made (.inl performed) with unchanged | ⟨data, scattered⟩
    · rw [slot, unchanged, slot]
    · rw [slot, scattered, Function.update_self]
      refine readAt_scatter_apart (s.framed.fits live listed) (fun slice into => ?_) data
      rcases reading_of_destination distinct member (suffix.subset listed) inZip into with
        same | ⟨other, inBlocks, differ, rfl⟩
      · exact absurd (same.trans (congrArg (IoCall.readv key · blockSize) (sliced blockId named))) reading
      · have apart := @apart_of_ne blockSize _ _ differ.symm
        rwa [← sliced other inBlocks] at apart

theorem loaded (s : Advance blockSize size start events c event d) {metadata : JobMetadata}
    {locations : List (Option SegmentLocation)}
    (submitted : (d.jobs process)[reference]? = some (.load metadata locations))
    (inFlight : InFlight (d.pool process) reference) {key : OffloadKey} {blockId : ℕ}
    (inZip : (key, blockId, none) ∈ metadata.keys.zip (metadata.blockIds.zip locations)) :
    SeenSince blockSize start (events ++ [event]) d process reference key (slot blockSize d process blockId) ∨
      Reading blockSize d process reference key blockId ∨ Lost (d.events process) (d.pool process) reference := by
  have named := (List.of_mem_zip (List.of_mem_zip inZip).2).1
  rcases job_of_step s.promised.1 submitted with old | ⟨first, opened⟩
  · have before := s.inFlight old inFlight
    rcases s.inv.loaded process reference metadata locations old before key blockId inZip with seen | reading | lost
    · by_cases works : Works c process reference event
      · rcases memory_of_works s.promised.1 works with
          same | lost | ⟨task, call, calls, middle, live, next, performed, memory⟩
        · left
          rw [slot, same]
          exact s.seen seen
        · exact .inr (.inr lost)
        · have left : slot blockSize d process blockId = slot blockSize middle process blockId := by
            rw [slot, memory, slot]
          rw [left]
          rcases s.slot_of_performed old live (by simp [next]) performed inZip with kept | read
          · rw [kept]
            exact .inl (s.seen seen)
          · exact .inl (s.seen_before old read)
      · left
        rw [s.promised.2.2 process reference _ old before works blockId named]
        exact s.seen seen
    · obtain ⟨task, live, only⟩ := reading
      rcases live_performs s.promised.1 (s.balanced process reference) live with
        still | lost | ⟨call, rest, middle, performs, performed, _⟩ | ended
      · exact .inr (.inl ⟨task, still, only⟩)
      · exact .inr (.inr lost)
      · obtain ⟨calls, next, _⟩ := performs.next
        obtain ⟨middle', performed', _, memory⟩ := performs.performed
        obtain rfl := Option.some.inj (performed.symm.trans performed')
        rw [only] at next
        obtain ⟨rfl, rfl⟩ := List.cons.inj next
        left
        rw [show slot blockSize d process blockId = slot blockSize middle process blockId by rw [slot, memory, slot]]
        exact s.seen_before old (s.slot_of_readv performed)
      · simp [ended] at only
    · exact .inr (.inr (s.lost old lost))
  · -- the job is submitted by this step, and all of its tasks are queued
    have inside := (s.placed submitted).2 blockId named
    have live := opened.live (loadBlock (c.io process) key blockId) (by
      cases (c.config process).storageLayout with
      | segment => exact mem_segmentLoadTasks.mpr (.inl ⟨key, blockId, inZip, rfl⟩)
      | file => exact List.mem_map_of_mem (mem_zip_first_of_mem_zip_zip inZip))
    rw [s.framed.counted, ← first, s.io] at live
    refine .inr (.inl ⟨_, live, ?_⟩)
    rw [loadBlock, @blockSlice_of_inside (ioOf c.config blockSize size process) _ inside]
    rfl

theorem step (s : Advance blockSize size start events c event d) :
    FileInv blockSize size start (events ++ [event]) d where
  placed _ _ _ := s.placed
  sources _ _ _ _ _ submitted inFlight _ := s.sources submitted inFlight
  contents _ _ := s.contents
  stored _ _ _ _ _ submitted layout _ _ := s.stored submitted layout
  loaded _ _ _ _ submitted inFlight _ _ := s.loaded submitted inFlight

end Advance

/-! ## Runs -/

section Run

variable {config : ι → TierConfig} {blockSize : ℕ} {db : Database} {segments : ℕ → List UInt8}
  {files : OffloadKey → Option (List UInt8)} {memory : ι → List UInt8} {events : List (ClusterEvent ι)} {c : Cluster ι}

/-- The pools of a run in which as many blocks as keys are submitted balance their ledgers. -/
theorem balanced_of_matched (run : Run (Steps Cluster.step) (.init config db segments files memory) events c)
    (matched : ∀ event ∈ events, Matched event) (process : ι) (reference : ℕ) :
    (ledger (c.events process) (c.pool process) reference).Balanced := by
  have announced := announced_of_run run matched process
  refine balanced_of_run (poolRun run process) (fun event member submission submits => ?_) reference
  have listed : submission ∈ submissions (c.events process) := List.mem_filterMap.mpr ⟨event, member, submits⟩
  obtain ⟨index, inside, rfl⟩ := List.getElem_of_mem listed
  obtain ⟨aligned, io, same⟩ := announced.get (i := index) (announced.length_eq ▸ inside) inside
  simp only [List.get_eq_getElem] at same
  rw [same]
  exact counted_submission aligned io

theorem fileInv_init (whole : ∀ key data, files key = some data → data.length = blockSize) :
    FileInv blockSize (fun process => (memory process).length) (.init config db segments files memory) []
      (.init config db segments files memory) where
  placed _ _ _ submitted := by simp [Cluster.init] at submitted
  sources _ _ _ _ _ submitted := by simp [Cluster.init] at submitted
  contents key data held := ⟨whole key data held, .inl held⟩
  stored _ _ _ _ _ submitted := by simp [Cluster.init] at submitted
  loaded _ _ _ _ submitted := by simp [Cluster.init] at submitted

theorem advance (same : ∀ process, (config process).segments.blockSize = blockSize)
    (run : Run (Promised blockSize) (.init config db segments files memory) events c)
    (matched : ∀ event ∈ events, Matched event) {event : ClusterEvent ι} {d : Cluster ι}
    (inv : FileInv blockSize (fun process => (memory process).length) (.init config db segments files memory) events c)
    (promised : Promised blockSize c event d) :
    Advance blockSize (fun process => (memory process).length) (.init config db segments files memory) events c event
      d where
  run := run
  promised := promised
  framed := framed_of_run (steps_of_promised run)
  same process := by rw [config_of_run (steps_of_promised run), same]
  balanced := balanced_of_matched (steps_of_promised run) matched
  inv := inv

theorem fileInv_of_run (same : ∀ process, (config process).segments.blockSize = blockSize)
    (whole : ∀ key data, files key = some data → data.length = blockSize)
    (run : Run (Promised blockSize) (.init config db segments files memory) events c)
    (matched : ∀ event ∈ events, Matched event) :
    FileInv blockSize (fun process => (memory process).length) (.init config db segments files memory) events c := by
  induction run with
  | nil => exact fileInv_init whole
  | snoc before promised ih =>
    have past := fun event member => matched event (List.mem_append_left _ member)
    exact (advance same before past (ih past) promised).step

/-- Every block file is whole: it was there at the start, or a store job read it for its key. A load handed out as a
success has brought to each block that it reads from a file what the file held at some point since the load was
submitted, and a store handed out as a success has had a file for each of its keys since it was submitted. -/
theorem file_integrity (same : ∀ process, (config process).segments.blockSize = blockSize)
    (whole : ∀ key data, files key = some data → data.length = blockSize)
    (run : Run (Promised blockSize) (.init config db segments files memory) events c)
    (matched : ∀ event ∈ events, Matched event) :
    (∀ key data, c.files key = some data →
      data.length = blockSize ∧ (files key = some data ∨ FromStore blockSize c key data)) ∧
    ∀ process reference d, c.step (.getFinished process reference true) = some d →
      (∀ metadata locations, (c.jobs process)[reference]? = some (.load metadata locations) → ∀ key blockId,
        (key, blockId, none) ∈ metadata.keys.zip (metadata.blockIds.zip locations) →
          SeenSince blockSize (.init config db segments files memory) events c process reference key
            (slot blockSize d process blockId)) ∧
      ∀ metadata plan source, (c.jobs process)[reference]? = some (.store metadata plan source) →
        (config process).storageLayout = .file → ∀ key blockId, (key, blockId) ∈ metadata.keys.zip metadata.blockIds →
          ∃ data, SeenSince blockSize (.init config db segments files memory) events c process reference key data := by
  have inv := fileInv_of_run same whole run matched
  refine ⟨inv.contents, fun process reference d moved => ?_⟩
  obtain ⟨pool, stepped, rfl⟩ := poolStep_cases moved
  have queue : (reference, true) ∈ (c.pool process).finishedQ := by
    rw [(Pool.getFinished_cases stepped).1]
    exact List.mem_cons_self ..
  have reported : true ∈ reports (c.events process) reference := by
    rw [mem_reports_iff, ← finished_of_run (poolRun (steps_of_promised run) process)]
    exact List.mem_append_right _ queue
  obtain ⟨nothingLive, notLost⟩ :=
    settled_of_reported (balanced_of_matched (steps_of_promised run) matched process reference) reported
  constructor
  · intro metadata locations submitted key blockId inZip
    rcases inv.loaded process reference metadata locations submitted (.inr (.inr ⟨true, queue⟩)) key blockId inZip with
      seen | ⟨task, live, _⟩ | lost
    · exact seen
    · exact absurd live (nothingLive task)
    · exact absurd lost notLost
  · intro metadata plan source submitted layout key blockId inZip
    rw [← config_of_run (steps_of_promised run)] at layout
    rcases inv.stored process reference metadata plan source submitted layout key blockId inZip with
      seen | ⟨task, _, live, _⟩ | lost
    · exact seen
    · exact absurd live (nothingLive task)
    · exact absurd lost notLost

end Run

/-! ## Two layouts -/

/-- A process in the file layout, and one in the segment layout. -/
def mixedConfig (process : Bool) : TierConfig :=
  { alikeConfig process with storageLayout := if process then .segment else .file }

def mixedStart : Cluster Bool :=
  .init mixedConfig .empty (fun _ => []) (fun _ => none) fun process =>
    if process then List.replicate 8 0 else (List.range 16).map UInt8.ofNat

/-- The one stores the second of its blocks in a file, and the other loads it from there. -/
def mixedTape : List (ClusterEvent Bool) :=
  [.submitStore false ⟨1, [[1]], [1]⟩, .worker false 0 .take .completed,
    .worker false 0 (.work ⟨[.replaceFile [1] ⟨8, 8⟩], .reraise⟩) .completed,
    .worker false 0 (.work ⟨[], .reraise⟩) .completed, .worker false 0 (.taskEnded 0 true) .completed,
    .worker false 0 (.taskDone 0 true) .completed, .worker false 0 (.reported 0 true) .completed,
    .submitLoad true ⟨2, [[1]], [0]⟩, .worker true 0 .take .completed,
    .worker true 0 (.work ⟨[], .remove [1]⟩) .completed, .worker true 0 (.taskEnded 0 true) .completed,
    .worker true 0 (.taskDone 0 true) .completed, .worker true 0 (.reported 0 true) .completed]

theorem file_integrity_mixed : ∃ c d, Run (Promised 8) mixedStart mixedTape c ∧
    c.step (.getFinished true 0 true) = some d ∧ (∃ data, c.files [1] = some data ∧ FromStore 8 c [1] data) ∧
    (∃ data, SeenSince 8 mixedStart mixedTape c false 0 [1] data) ∧
    SeenSince 8 mixedStart mixedTape c true 0 [1] (slot 8 d true 0) := by
  have executed : (replay (promisedStep 8) mixedStart mixedTape).map (fun c =>
      ((c.files [1]).isSome, (c.jobs true)[0]?, (c.step (.getFinished true 0 true)).isSome,
        (c.step (.getFinished false 0 true)).isSome)) =
        some (true, some (.load ⟨2, [[1]], [0]⟩ [none]), true, true) := by decide +kernel
  obtain ⟨c, replayed, facts⟩ := Option.map_eq_some_iff.mp executed
  simp only [Prod.mk.injEq] at facts
  obtain ⟨present, load, loaded, stored⟩ := facts
  have source : (replay (promisedStep 8) mixedStart mixedTape).map (fun c => (c.jobs false)[0]?) =
      some (some (.store ⟨1, [[1]], [1]⟩ ⟨[]⟩ ((List.range 16).map UInt8.ofNat))) := by decide +kernel
  rw [replayed, Option.map_some, Option.some.injEq] at source
  obtain ⟨data, held⟩ := Option.isSome_iff_exists.mp present
  obtain ⟨d, moved⟩ := Option.isSome_iff_exists.mp loaded
  obtain ⟨e, reported⟩ := Option.isSome_iff_exists.mp stored
  have run : Run (Promised 8) mixedStart mixedTape c :=
    (Run.of_replay replayed).mono fun _ _ _ => promised_of_step
  have whole : ∀ key data, (fun _ : OffloadKey => (none : Option (List UInt8))) key = some data → data.length = 8 :=
    fun _ _ held => by cases held
  have matched : ∀ event ∈ mixedTape, Matched event := by simp [mixedTape, Matched]
  have same : ∀ process, (mixedConfig process).segments.blockSize = 8 := fun _ => rfl
  obtain ⟨contents, finished⟩ := file_integrity same whole run matched
  exact ⟨c, d, run, moved, ⟨data, held, (contents [1] data held).2.resolve_left (by simp)⟩,
    (finished false 0 e reported).2 _ _ _ source rfl [1] 1 (by simp),
    (finished true 0 d moved).1 _ _ load [1] 0 (by simp)⟩

end Cluster

end KVTiering.Soundness
