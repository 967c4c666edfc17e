import KVTiering.Soundness.ClusterSteps
import KVTiering.Soundness.Placement

/-! # Where the bytes of a position come from

The bytes of an entry are followed from the slot of the primary tier through the tasks of its job to the row: an
entry is written, or a live task has still to write it, or its job has lost a task and is never indexed. A load
follows the same way back. The invariant that says so relies on what the callers promise about the slots of a job
in flight.
-/

namespace KVTiering.Soundness.Cluster

open Model ThreadPool SharedStore

variable {ι : Type}

/-! ## What the callers promise -/

/-- The bytes of a block of the primary tier. -/
def slot (blockSize : ℕ) (c : Cluster ι) (process : ι) (blockId : ℕ) : List UInt8 :=
  readAt (c.memory process) (blockId * blockSize) blockSize

/-- The blocks submitted are in the primary tier, and those of a load are distinct. -/
def Valid (blockSize : ℕ) (c : Cluster ι) : ClusterEvent ι → Prop
  | .submitStore process metadata =>
    ∀ blockId ∈ metadata.blockIds, blockId * blockSize + blockSize ≤ (c.memory process).length
  | .submitLoad process metadata => metadata.blockIds.Nodup ∧
    ∀ blockId ∈ metadata.blockIds, blockId * blockSize + blockSize ≤ (c.memory process).length
  | _ => True

/-- While a job is in flight, nobody but its own tasks changes its blocks. -/
def Undisturbed (blockSize : ℕ) (c : Cluster ι) (event : ClusterEvent ι) (d : Cluster ι) : Prop :=
  ∀ process reference job, (c.jobs process)[reference]? = some job → InFlight (c.pool process) reference →
    ¬Works c process reference event →
      ∀ blockId ∈ job.metadata.blockIds, slot blockSize d process blockId = slot blockSize c process blockId

section Promise

variable [DecidableEq ι]

/-- A step that keeps the promise of the callers. -/
def Promised (blockSize : ℕ) (c : Cluster ι) (event : ClusterEvent ι) (d : Cluster ι) : Prop :=
  c.step event = some d ∧ Valid blockSize c event ∧ Undisturbed blockSize c event d

end Promise

/-! ## What a position holds -/

/-- The position of the key is an entry of a store job whose tasks have all succeeded, and holds the bytes that
the job's block for the key had when the job was submitted. -/
structure Backed (blockSize : ℕ) (c : Cluster ι) (key : OffloadKey) (location : SegmentLocation)
    (data : List UInt8) (process : ι) (reference : ℕ) (metadata : JobMetadata) (plan : SegmentStorePlan)
    (source : List UInt8) (entry : SegmentWrite) : Prop where
  stored : (c.jobs process)[reference]? = some (.store metadata plan source)
  planned : entry ∈ plan.entries
  given : (key, entry.blockId) ∈ metadata.keys.zip metadata.blockIds
  located : entry.location blockSize = location
  read : data = readAt source (entry.blockId * blockSize) blockSize
  whole : data.length = blockSize
  called : true ∈ calls (c.events process) reference
  holds : Holds (c.segments location.segmentId) location.offset data

def Genuine (blockSize : ℕ) (c : Cluster ι) (key : OffloadKey) (location : SegmentLocation)
    (data : List UInt8) : Prop :=
  ∃ process reference metadata plan source entry,
    Backed blockSize c key location data process reference metadata plan source entry

theorem Genuine.length {blockSize : ℕ} {c : Cluster ι} {key : OffloadKey} {location : SegmentLocation}
    {data : List UInt8} (genuine : Genuine blockSize c key location data) : location.length = blockSize := by
  obtain ⟨_, _, _, _, _, entry, backed⟩ := genuine
  rw [← backed.located]
  rfl

/-! ## The invariant -/

variable (config : ι → TierConfig) (blockSize : ℕ) (size : ι → ℕ)

/-- What the tasks of a process are made with. -/
def ioOf (process : ι) : IoConfig := ⟨blockSize, size process, (config process).maxBuffers⟩

/-- What a job keeps from its submission. -/
def Kept (c : Cluster ι) (process : ι) : TierJob → Prop
  | .store metadata plan source => plan ∈ c.shared.plans process ∧ source.length = size process ∧
      (∀ blockId ∈ metadata.blockIds, Inside (ioOf config blockSize size process) blockId) ∧
      ∀ entry ∈ plan.entries, (entry.key, entry.blockId) ∈ metadata.keys.zip metadata.blockIds
  | .load metadata locations => metadata.blockIds.Nodup ∧
      (∀ blockId ∈ metadata.blockIds, Inside (ioOf config blockSize size process) blockId) ∧
      WholeBlocks (ioOf config blockSize size process) metadata.keys metadata.blockIds locations

/-- The block is still to be transferred by a task of the job. -/
def Pending (c : Cluster ι) (process : ι) (reference : ℕ) (transfer : BlockTransfer) : Prop :=
  ∃ task, Live (c.pool process) reference task ∧ transfer ∈ task.calls.flatMap transfers

structure Inv (c : Cluster ι) : Prop where
  safe : Safe c.shared
  arguments : ∀ process, (c.shared.store process).config = (config process).segments
  sized : ∀ process, (c.memory process).length = size process
  announced : ∀ process, submissions (c.events process) =
    (c.jobs process).map (submission .segment (ioOf config blockSize size process))
  kept : ∀ (process : ι) (reference : ℕ) (job : TierJob), (c.jobs process)[reference]? = some job →
    Kept config blockSize size c process job
  /-- A live task is the rest of a task of its job. -/
  tasks : ∀ (process : ι) (reference : ℕ) (task : Task), Live (c.pool process) reference task → ∃ job original,
    (c.jobs process)[reference]? = some job ∧
      original ∈ (submission .segment (ioOf config blockSize size process) job).tasks ∧ task.calls <:+ original.calls
  /-- Entries of different jobs, and different entries of one job, do not overlap. -/
  apart : ∀ (process : ι) (reference : ℕ) (metadata : JobMetadata) (plan : SegmentStorePlan) (source : List UInt8)
    (process' : ι) (reference' : ℕ) (metadata' : JobMetadata) (plan' : SegmentStorePlan) (source' : List UInt8),
    (c.jobs process)[reference]? = some (.store metadata plan source) →
    (c.jobs process')[reference']? = some (.store metadata' plan' source') →
    ∀ entry ∈ plan.entries, ∀ entry' ∈ plan'.entries,
      (process = process' ∧ reference = reference' ∧ entry = entry') ∨
        (entry.extent blockSize).Disjoint (entry'.extent blockSize)
  /-- The blocks of a store in flight are as they were submitted. -/
  sources : ∀ (process : ι) (reference : ℕ) (metadata : JobMetadata) (plan : SegmentStorePlan) (source : List UInt8),
    (c.jobs process)[reference]? = some (.store metadata plan source) → InFlight (c.pool process) reference →
    ∀ blockId ∈ metadata.blockIds,
      slot blockSize c process blockId = readAt source (blockId * blockSize) blockSize
  /-- An entry is written, or still to be written, or never will be. -/
  written : ∀ (process : ι) (reference : ℕ) (metadata : JobMetadata) (plan : SegmentStorePlan) (source : List UInt8),
    (c.jobs process)[reference]? = some (.store metadata plan source) → ∀ entry ∈ plan.entries,
      Holds (c.segments entry.segmentId) entry.offset (readAt source (entry.blockId * blockSize) blockSize) ∨
        Pending c process reference (writeTransfer (ioOf config blockSize size process) entry) ∨
        Lost (c.events process) (c.pool process) reference
  known : ∀ process key location, Known c.shared process key location → ∃ data, Genuine blockSize c key location data
  /-- A location of a load in flight is read, or still to be read, or never will be. -/
  loaded : ∀ (process : ι) (reference : ℕ) (metadata : JobMetadata) (locations : List (Option SegmentLocation)),
    (c.jobs process)[reference]? = some (.load metadata locations) → ∀ key blockId location,
    (key, blockId, some location) ∈ metadata.keys.zip (metadata.blockIds.zip locations) →
      ∃ data, Genuine blockSize c key location data ∧ (InFlight (c.pool process) reference →
        slot blockSize c process blockId = data ∨
          Pending c process reference (readTransfer (ioOf config blockSize size process) location blockId) ∨
          Lost (c.events process) (c.pool process) reference)

section Calls

variable {config : ι → TierConfig} {blockSize : ℕ} {size : ι → ℕ} {c : Cluster ι} {process : ι} {reference : ℕ}
  {task : Task} {call : IoCall}

/-- The pool's view of a job. -/
theorem Inv.jobState (inv : Inv config blockSize size c) {nReadThreads nWriteThreads : ℕ}
    (seen : Run (Steps Pool.step) (.init nReadThreads nWriteThreads) (c.events process) (c.pool process))
    {job : TierJob} (submitted : (c.jobs process)[reference]? = some job) :
    ((c.pool process).jobState reference).nTasks =
        (submission .segment (ioOf config blockSize size process) job).nTasks ∧
      ((c.pool process).jobState reference).onComplete =
        (submission .segment (ioOf config blockSize size process) job).onComplete := by
  have found : (submissions (c.events process))[reference]? =
      some (submission .segment (ioOf config blockSize size process) job) := by
    rw [inv.announced, List.getElem?_map, submitted]
    rfl
  exact (jobState_of_run seen found).2

theorem Inv.balanced (inv : Inv config blockSize size c) {nReadThreads nWriteThreads : ℕ}
    (seen : Run (Steps Pool.step) (.init nReadThreads nWriteThreads) (c.events process) (c.pool process))
    (reference : ℕ) : (ledger (c.events process) (c.pool process) reference).Balanced := by
  refine balanced_of_run seen (fun event member announced submits => ?_) reference
  have listed : announced ∈ submissions (c.events process) := List.mem_filterMap.mpr ⟨event, member, submits⟩
  rw [inv.announced] at listed
  obtain ⟨job, _, rfl⟩ := List.mem_map.mp listed
  cases job <;> rfl

theorem writeTransfer_eq {io : IoConfig} {entry : SegmentWrite} (inside : Inside io entry.blockId) :
    writeTransfer io entry = ⟨entry.segmentId, entry.offset, ⟨entry.blockId * io.blockSize, io.blockSize⟩⟩ := by
  rw [writeTransfer, blockSlice_of_inside inside]

theorem readTransfer_eq {io : IoConfig} {blockId : ℕ} (location : SegmentLocation) (inside : Inside io blockId) :
    readTransfer io location blockId =
      ⟨location.segmentId, location.offset, ⟨blockId * io.blockSize, io.blockSize⟩⟩ := by
  rw [readTransfer, blockSlice_of_inside inside]

theorem fits_of_inside (inv : Inv config blockSize size c) {blockId : ℕ}
    (inside : Inside (ioOf config blockSize size process) blockId) :
    Fits (c.memory process) ⟨blockId * blockSize, blockSize⟩ := by
  rw [Fits, inv.sized]
  exact inside

theorem Inv.inside_entry (inv : Inv config blockSize size c) {metadata : JobMetadata} {plan : SegmentStorePlan}
    {source : List UInt8} (submitted : (c.jobs process)[reference]? = some (.store metadata plan source))
    {entry : SegmentWrite} (planned : entry ∈ plan.entries) :
    entry.blockId ∈ metadata.blockIds ∧ Inside (ioOf config blockSize size process) entry.blockId := by
  obtain ⟨_, _, inside, given⟩ := inv.kept _ _ _ submitted
  have member := (List.of_mem_zip (given entry planned)).2
  exact ⟨member, inside _ member⟩

/-- A live task of a store writes entries of its plan. -/
theorem Inv.store_call (inv : Inv config blockSize size c) {metadata : JobMetadata} {plan : SegmentStorePlan}
    {source : List UInt8} (submitted : (c.jobs process)[reference]? = some (.store metadata plan source))
    (live : Live (c.pool process) reference task) (listed : call ∈ task.calls) :
    (∃ segmentId offset views, call = .pwritev segmentId offset views) ∧
      ∀ transfer ∈ transfers call, ∃ entry ∈ plan.entries,
        transfer = ⟨entry.segmentId, entry.offset, ⟨entry.blockId * blockSize, blockSize⟩⟩ := by
  obtain ⟨job, original, found, member, suffix⟩ := inv.tasks _ _ _ live
  obtain rfl := Option.some.inj (submitted.symm.trans found)
  have inOriginal := suffix.subset listed
  refine ⟨calls_segmentStoreTasks member inOriginal, fun transfer placed => ?_⟩
  have inside : ∀ entry ∈ plan.entries, Inside (ioOf config blockSize size process) entry.blockId :=
    fun entry planned => (inv.inside_entry submitted planned).2
  obtain ⟨entry, planned, rfl⟩ := (mem_transfers_store (config process).maxBuffers_pos inside).mp
    ⟨original, member, List.mem_flatMap.mpr ⟨call, inOriginal, placed⟩⟩
  exact ⟨entry, planned, writeTransfer_eq (inside entry planned)⟩

theorem Inv.inside_load (inv : Inv config blockSize size c) {metadata : JobMetadata}
    {locations : List (Option SegmentLocation)}
    (submitted : (c.jobs process)[reference]? = some (.load metadata locations)) {key : OffloadKey} {blockId : ℕ}
    {location : Option SegmentLocation}
    (inZip : (key, blockId, location) ∈ metadata.keys.zip (metadata.blockIds.zip locations)) :
    Inside (ioOf config blockSize size process) blockId :=
  (inv.kept _ _ _ submitted).2.1 _ (List.of_mem_zip (List.of_mem_zip inZip).2).1

/-- A live task of a load reads into blocks of its job, each from the location of its key. -/
theorem Inv.load_call (inv : Inv config blockSize size c) {metadata : JobMetadata}
    {locations : List (Option SegmentLocation)}
    (submitted : (c.jobs process)[reference]? = some (.load metadata locations))
    (live : Live (c.pool process) reference task) (listed : call ∈ task.calls) :
    ((∃ segmentId offset views, call = .preadv segmentId offset views) ∨
      ∃ key destination length, call = .readv key destination length) ∧
      ∀ slice ∈ destinations call, ∃ key blockId location,
        (key, blockId, location) ∈ metadata.keys.zip (metadata.blockIds.zip locations) ∧
          slice = ⟨blockId * blockSize, blockSize⟩ ∧ ∀ found, location = some found →
            readTransfer (ioOf config blockSize size process) found blockId ∈ transfers call := by
  obtain ⟨job, original, found, member, suffix⟩ := inv.tasks _ _ _ live
  obtain rfl := Option.some.inj (submitted.symm.trans found)
  obtain ⟨_, _, whole⟩ := inv.kept _ _ _ submitted
  have inOriginal := suffix.subset listed
  rcases calls_segmentLoadTasks whole member inOriginal with ⟨segmentId, offset, views, rfl⟩ |
    ⟨key, blockId, inZip, rfl⟩
  · refine ⟨.inl ⟨_, _, _, rfl⟩, fun slice inViews => ?_⟩
    have inSpread : slice ∈ (spread offset views).map Prod.snd := by rwa [map_snd_spread]
    obtain ⟨part, inParts, rfl⟩ := List.mem_map.mp inSpread
    have placed : transferAt segmentId part ∈ transfers (.preadv segmentId offset views) := List.mem_map_of_mem inParts
    obtain ⟨key, blockId, location, inZip, same⟩ := (mem_transfers_load (config process).maxBuffers_pos whole).mp
      ⟨original, member, List.mem_flatMap.mpr ⟨_, inOriginal, placed⟩⟩
    refine ⟨key, blockId, some location, inZip, ?_, fun found equal => ?_⟩
    · rw [readTransfer_eq location (inv.inside_load submitted inZip)] at same
      exact congrArg BlockTransfer.slice same
    · obtain rfl := Option.some.inj equal
      rwa [← same]
  · refine ⟨.inr ⟨_, _, _, rfl⟩, fun slice only => ?_⟩
    refine ⟨key, blockId, none, inZip, ?_, fun found equal => by cases equal⟩
    rw [List.mem_singleton.mp only, blockSlice_of_inside (inv.inside_load submitted inZip)]
    rfl

theorem apart_of_ne {blockId blockId' : ℕ} (differ : blockId ≠ blockId') :
    Apart ⟨blockId * blockSize, blockSize⟩ ⟨blockId' * blockSize, blockSize⟩ := by
  simp only [Apart, ← Nat.succ_mul]
  rcases Nat.lt_or_gt_of_ne differ with before | after
  · exact .inl (Nat.mul_le_mul_right blockSize before)
  · exact .inr (Nat.mul_le_mul_right blockSize after)

/-- The blocks that one call reads are different ones, since it reads them from different places. -/
theorem Inv.views_apart (inv : Inv config blockSize size c) {metadata : JobMetadata}
    {locations : List (Option SegmentLocation)}
    (submitted : (c.jobs process)[reference]? = some (.load metadata locations))
    (live : Live (c.pool process) reference task) {segmentId offset : ℕ} {views : List Slice}
    (listed : .preadv segmentId offset views ∈ task.calls) :
    (spread offset views).Pairwise fun first second => Apart first.2 second.2 := by
  obtain ⟨distinct, _, whole⟩ := inv.kept _ _ _ submitted
  obtain ⟨job, original, found, member, suffix⟩ := inv.tasks _ _ _ live
  obtain rfl := Option.some.inj (submitted.symm.trans found)
  have source : ∀ part ∈ spread offset views, ∃ key blockId location,
      (key, blockId, some location) ∈ metadata.keys.zip (metadata.blockIds.zip locations) ∧
        part = (location.offset, ⟨blockId * blockSize, blockSize⟩) := by
    intro part inParts
    obtain ⟨key, blockId, location, inZip, same⟩ := (mem_transfers_load (config process).maxBuffers_pos whole).mp
      ⟨original, member, List.mem_flatMap.mpr ⟨_, suffix.subset listed, List.mem_map_of_mem inParts⟩⟩
    rw [readTransfer_eq location (inv.inside_load submitted inZip)] at same
    obtain ⟨_, start, slice⟩ := BlockTransfer.mk.inj same
    exact ⟨key, blockId, location, inZip, Prod.ext start slice⟩
  refine (pairwise_spread offset views).imp_of_mem fun {first second} inParts inParts' order => ?_
  obtain ⟨key, blockId, location, inZip, rfl⟩ := source first inParts
  obtain ⟨key', blockId', location', inZip', rfl⟩ := source second inParts'
  rcases eq_or_ne blockId blockId' with rfl | differ
  · obtain ⟨_, same⟩ := zip_zip_unique distinct inZip inZip'
    cases same
    -- only empty blocks can come twice
    simp only [Apart] at order ⊢
    omega
  · exact apart_of_ne differ

/-- A live task reads into the primary tier and writes from it. -/
theorem Inv.fits (inv : Inv config blockSize size c)
    (live : Live (c.pool process) reference task) (listed : call ∈ task.calls) :
    (∀ slice ∈ destinations call, Fits (c.memory process) slice) ∧
      ∀ segmentId offset views, call = .pwritev segmentId offset views →
        ∀ slice ∈ views, Fits (c.memory process) slice := by
  obtain ⟨job, original, found, _⟩ := inv.tasks _ _ _ live
  cases job with
  | store metadata plan source =>
    obtain ⟨⟨segmentId, offset, views, rfl⟩, placed⟩ := inv.store_call found live listed
    refine ⟨by simp [destinations], ?_⟩
    rintro _ _ _ same slice inViews
    cases same
    have inSpread : slice ∈ (spread offset views).map Prod.snd := by rwa [map_snd_spread]
    obtain ⟨part, inParts, rfl⟩ := List.mem_map.mp inSpread
    obtain ⟨entry, planned, same⟩ := placed (transferAt segmentId part) (List.mem_map_of_mem inParts)
    rw [show part.2 = _ from congrArg BlockTransfer.slice same]
    exact fits_of_inside inv (inv.inside_entry found planned).2
  | load metadata locations =>
    obtain ⟨reading, into⟩ := inv.load_call found live listed
    refine ⟨fun slice inDestinations => ?_, ?_⟩
    rotate_left
    · rintro _ _ _ rfl
      rcases reading with ⟨_, _, _, same⟩ | ⟨_, _, _, same⟩ <;> cases same
    obtain ⟨key, blockId, location, inZip, rfl, _⟩ := into slice inDestinations
    exact fits_of_inside inv (inv.inside_load found inZip)

theorem Inv.store_of_pwritev (inv : Inv config blockSize size c) {segmentId offset : ℕ} {views : List Slice}
    (live : Live (c.pool process) reference task) (listed : .pwritev segmentId offset views ∈ task.calls) :
    ∃ metadata plan source, (c.jobs process)[reference]? = some (.store metadata plan source) := by
  obtain ⟨job, original, found, _⟩ := inv.tasks _ _ _ live
  cases job with
  | store metadata plan source => exact ⟨metadata, plan, source, found⟩
  | load => rcases (inv.load_call found live listed).1 with ⟨_, _, _, same⟩ | ⟨_, _, _, same⟩ <;> cases same

/-- The block of an entry is a whole block of the primary tier. -/
theorem Inv.length_source (inv : Inv config blockSize size c) {metadata : JobMetadata} {plan : SegmentStorePlan}
    {source : List UInt8} (submitted : (c.jobs process)[reference]? = some (.store metadata plan source))
    {entry : SegmentWrite} (planned : entry ∈ plan.entries) :
    (readAt source (entry.blockId * blockSize) blockSize).length = blockSize := by
  obtain ⟨_, length, _⟩ := inv.kept _ _ _ submitted
  have inside : entry.blockId * blockSize + blockSize ≤ size process := (inv.inside_entry submitted planned).2
  rw [length_readAt]
  omega

end Calls

/-! ## What a plan is -/

/-- A plan writes for its keys the blocks that were given for them. -/
theorem given_of_prepared {store store' : SegmentStore} {db db' : Database} {keys : List OffloadKey}
    {blockIds : List ℕ} {plan : SegmentStorePlan}
    (prepared : store.prepareStore db keys blockIds = .ok (plan, db', store')) {entry : SegmentWrite}
    (planned : entry ∈ plan.entries) : (entry.key, entry.blockId) ∈ keys.zip blockIds := by
  have inKeys := ((prepareStore_plans prepared entry.key).mp ⟨entry, planned, rfl⟩).1
  refine List.mem_iff_getElem?.mpr ⟨keys.idxOf entry.key, List.getElem?_zip_eq_some.mpr ⟨?_, ?_⟩⟩
  · rw [List.getElem?_eq_getElem (List.idxOf_lt_length_of_mem inKeys), List.getElem_idxOf]
  · exact Placement.block_of_prepared prepared planned

/-- A location looked up for a key is one that the process can offer for it. -/
theorem known_of_looked {s : SharedStore ι} {process : ι} {keys : List OffloadKey} {blockIds : List ℕ}
    {locations : List (Option SegmentLocation)}
    (looked : locations = ((s.store process).getLocations s.db keys).1) {key : OffloadKey} {blockId : ℕ}
    {location : SegmentLocation} (listed : (key, blockId, some location) ∈ keys.zip (blockIds.zip locations)) :
    Known s process key location := by
  subst looked
  exact known_of_offered (mem_zip_of_mem_zip_zip listed)

end KVTiering.Soundness.Cluster
