import KVTiering.Soundness.Provenance

/-! # End-to-end integrity of the segment layout

Whatever the processes on a root directory do, every position that a process can offer for a key holds the block
that one store job read for that key, and keeps it for good; a load that is reported as a success has brought such
blocks to its slots. Each part of the invariant is shown to be kept by one step, and then by a run.
-/

namespace KVTiering.Soundness.Cluster

open Model ThreadPool SharedStore

variable {ι : Type}

theorem rest_suffix (c : Cluster ι) (calls : List IoCall) (call : IoCall) :
    c.rest calls call <:+ calls := by
  cases call with
  | pathExists =>
    simp only [Cluster.rest]
    split
    · exact List.nil_suffix
    · exact List.suffix_refl _
  | _ => exact List.suffix_refl _

/-! ## What one step keeps -/

/-- Every process uses the segment layout, with the same block size. -/
structure Segmented (config : ι → TierConfig) (blockSize : ℕ) : Prop where
  layout : ∀ process, (config process).storageLayout = .segment
  same : ∀ process, (config process).segments.blockSize = blockSize

variable [DecidableEq ι]

/-- A step of a run that keeps the promise, from a state of which the invariant holds. -/
structure Stepping (config : ι → TierConfig) (blockSize : ℕ) (size : ι → ℕ) (c : Cluster ι)
    (event : ClusterEvent ι) (d : Cluster ι) : Prop where
  segmented : Segmented config blockSize
  inv : Inv config blockSize size c
  configured : c.config = config
  seen : ∀ process, Run (Steps Pool.step)
    (.init (config process).nReadThreads (config process).nWriteThreads) (c.events process) (c.pool process)
  moved : c.step event = some d
  valid : Valid blockSize c event
  undisturbed : Undisturbed blockSize c event d

namespace Stepping

variable {config : ι → TierConfig} {blockSize : ℕ} {size : ι → ℕ} {c d : Cluster ι} {event : ClusterEvent ι}
  {process : ι} {reference : ℕ}

theorem layout (s : Stepping config blockSize size c event d) (process : ι) :
    (c.config process).storageLayout = .segment := s.configured ▸ s.segmented.layout process

theorem io (s : Stepping config blockSize size c event d) (process : ι) :
    c.io process = ioOf config blockSize size process := by
  simp only [Cluster.io, ioOf, s.configured, s.segmented.same, s.inv.sized]

theorem length (s : Stepping config blockSize size c event d) (process : ι) :
    (c.pool process).jobs.length = (c.jobs process).length := by
  rw [length_jobs_of_run (s.seen process), s.inv.announced, List.length_map]

theorem balanced (s : Stepping config blockSize size c event d) (process : ι) (reference : ℕ) :
    (ledger (c.events process) (c.pool process) reference).Balanced := s.inv.balanced (s.seen process) reference

/-- A job that was submitted before is in flight after the step only if it was before. -/
theorem inFlight (s : Stepping config blockSize size c event d) {job : TierJob}
    (submitted : (c.jobs process)[reference]? = some job) (inFlight : InFlight (d.pool process) reference) :
    InFlight (c.pool process) reference := by
  rcases inFlight_moves s.moved inFlight with before | fresh
  · exact before
  · have inside := (List.getElem?_eq_some_iff.mp submitted).1
    rw [fresh, s.length] at inside
    exact absurd inside (lt_irrefl _)

theorem lost (s : Stepping config blockSize size c event d) {job : TierJob}
    (submitted : (c.jobs process)[reference]? = some job)
    (lost : Lost (c.events process) (c.pool process) reference) :
    Lost (d.events process) (d.pool process) reference := by
  refine lost_moves s.moved ?_ lost
  rw [s.length]
  exact (List.getElem?_eq_some_iff.mp submitted).1

theorem sized (s : Stepping config blockSize size c event d) (process : ι) :
    (d.memory process).length = size process := by
  rw [← s.inv.sized process]
  rcases bytes_of_step s.moved with ⟨_, memory⟩ | ⟨acting, start, data, _, inside, _, memory⟩ |
    ⟨acting, job, task, call, calls, middle, _, live, next, made, _, memory⟩
  · rw [memory]
  · rw [memory]
    rcases eq_or_ne process acting with rfl | differ
    · rw [Function.update_self, length_writeAt_within inside]
    · rw [Function.update_of_ne differ]
  · rw [memory]
    rcases memory_of_made made with unchanged | ⟨data, scattered⟩
    · rw [unchanged]
    · rw [scattered]
      rcases eq_or_ne process acting with rfl | differ
      · rw [Function.update_self]
        exact length_scatter (s.inv.fits live (by simp [next])).1 data
      · rw [Function.update_of_ne differ]

theorem announced (s : Stepping config blockSize size c event d) (process : ι) :
    submissions (d.events process) =
      (d.jobs process).map (submission .segment (ioOf config blockSize size process)) := by
  have before := s.inv.announced process
  rcases step_pool s.moved process with ⟨_, events, jobs⟩ |
    ⟨operation, _, events, ⟨silent, jobs⟩ | ⟨metadata, job, shared, opens, jobs⟩⟩
  · rw [events, jobs, before]
  · rw [events, jobs, submissions_snoc, silent, Option.toList_none, List.append_nil, before]
  · rw [events, jobs, submissions_snoc, opens.announces.2, s.layout, s.io, before, List.map_append]
    rfl

theorem safe (s : Stepping config blockSize size c event d) : Safe d.shared := by
  rcases tables_of_step s.moved with same | ⟨operation, moved, _⟩
  · rw [same]
    exact s.inv.safe
  · exact s.inv.safe.step moved

theorem arguments (s : Stepping config blockSize size c event d) (process : ι) :
    (d.shared.store process).config = (config process).segments := by
  rw [← s.inv.arguments process]
  rcases tables_of_step s.moved with same | ⟨operation, moved, staying⟩
  · rw [same]
  · exact (store_kept moved staying process).1

theorem plans (s : Stepping config blockSize size c event d) {plan : SegmentStorePlan}
    (given : plan ∈ c.shared.plans process) : plan ∈ d.shared.plans process := by
  rcases tables_of_step s.moved with same | ⟨operation, moved, staying⟩
  · rwa [same]
  · exact (store_kept moved staying process).2 plan given

/-! ### Bytes -/

/-- An entry that is written stays written: whatever a step writes is its own block again, or away from it. -/
theorem holds (s : Stepping config blockSize size c event d) {metadata : JobMetadata} {plan : SegmentStorePlan}
    {source : List UInt8} (submitted : (c.jobs process)[reference]? = some (.store metadata plan source))
    {entry : SegmentWrite} (planned : entry ∈ plan.entries)
    (holds : Holds (c.segments entry.segmentId) entry.offset (readAt source (entry.blockId * blockSize) blockSize)) :
    Holds (d.segments entry.segmentId) entry.offset (readAt source (entry.blockId * blockSize) blockSize) := by
  rcases bytes_of_step s.moved with ⟨segments, _⟩ | ⟨_, _, _, _, _, segments, _⟩ |
    ⟨acting, job, task, call, calls, middle, _, live, next, made, segments, _⟩
  · rwa [segments]
  · rwa [segments]
  · rw [segments]
    rcases segments_of_made made with unchanged | ⟨segmentId, offset, buffers, transferred, rfl, wrote⟩
    · rwa [unchanged]
    · have listed : IoCall.pwritev segmentId offset buffers ∈ task.calls := by simp [next]
      rw [wrote]
      rcases eq_or_ne entry.segmentId segmentId with equal | differ
      · rw [equal, Function.update_self]
        rw [equal] at holds
        refine holds_gathered ((s.inv.fits live listed).2 _ _ _ rfl) holds (fun part inParts => ?_) transferred
        obtain ⟨metadata', plan', source', found⟩ := s.inv.store_of_pwritev live listed
        obtain ⟨entry', planned', placed⟩ := (s.inv.store_call found live listed).2 (transferAt segmentId part)
          (List.mem_map_of_mem inParts)
        obtain ⟨container, offset', slice⟩ := BlockTransfer.mk.inj placed
        have whole := s.inv.length_source submitted planned
        have length : part.2.length = blockSize := by rw [slice]
        rcases s.inv.apart _ _ _ _ _ _ _ _ _ _ submitted found entry planned entry' planned' with
          ⟨rfl, rfl, rfl⟩ | containers | before | after
        · -- the entry itself is written once more, from a block that nobody has changed
          cases submitted.symm.trans found
          have same := s.inv.sources _ _ _ _ _ submitted (inFlight_of_live live) _
            (s.inv.inside_entry submitted planned).1
          refine .inr (.inr ⟨offset', ?_⟩)
          rw [slice, ← same]
          rfl
        · exact absurd (equal.trans container) containers
        · refine .inr (.inl ?_)
          rw [whole, offset']
          exact before
        · left
          rw [length, offset']
          exact after
      · rwa [Function.update_of_ne differ]

theorem genuine (s : Stepping config blockSize size c event d) {key : OffloadKey} {location : SegmentLocation}
    {data : List UInt8} (genuine : Genuine blockSize c key location data) : Genuine blockSize d key location data := by
  obtain ⟨process, reference, metadata, plan, source, entry, backed⟩ := genuine
  refine ⟨process, reference, metadata, plan, source, entry, job_kept s.moved backed.stored, backed.planned,
    backed.given, backed.located, backed.read, backed.whole, called_moves s.moved backed.called, ?_⟩
  have held := backed.holds
  rw [backed.read, ← backed.located] at held ⊢
  exact s.holds backed.stored backed.planned held

/-! ### Jobs and tasks -/

theorem planned (s : Stepping config blockSize size c event d) {metadata : JobMetadata} {plan : SegmentStorePlan}
    {source : List UInt8} (opened : Opened c event d process (.store metadata plan source)) :
    event = .submitStore process metadata ∧ source = c.memory process ∧ ∃ db store,
      (c.shared.store process).prepareStore c.shared.db metadata.keys metadata.blockIds = .ok (plan, db, store) ∧
        d.shared = c.shared.prepared process plan db store := by
  obtain ⟨submitted, opening, opens⟩ := opened.opens
  have layout := s.layout process
  generalize shared : d.shared = after at opens
  cases opens with
  | storeSegments _ prepared => exact ⟨rfl, rfl, _, _, prepared, rfl⟩
  | storeFiles file =>
    rw [layout] at file
    cases file

theorem looked (s : Stepping config blockSize size c event d) {metadata : JobMetadata}
    {locations : List (Option SegmentLocation)} (opened : Opened c event d process (.load metadata locations)) :
    event = .submitLoad process metadata ∧
      locations = ((c.shared.store process).getLocations c.shared.db metadata.keys).1 := by
  obtain ⟨submitted, opening, opens⟩ := opened.opens
  have layout := s.layout process
  generalize d.shared = after at opens
  cases opens with
  | loadSegments _ located => exact ⟨rfl, located⟩
  | loadFiles file =>
    rw [layout] at file
    cases file

theorem kept (s : Stepping config blockSize size c event d) {job : TierJob}
    (submitted : (d.jobs process)[reference]? = some job) : Kept config blockSize size d process job := by
  have valid := s.valid
  have size := s.inv.sized process
  rcases job_of_step s.moved submitted with old | ⟨_, opened⟩
  · have before := s.inv.kept _ _ _ old
    cases job with
    | store => exact ⟨s.plans before.1, before.2⟩
    | load => exact before
  · cases job with
    | store metadata plan source =>
      obtain ⟨rfl, rfl, db, store, prepared, shared⟩ := s.planned opened
      refine ⟨by simp [shared], size, fun blockId listed => ?_, fun entry planned => given_of_prepared prepared planned⟩
      have inside : blockId * blockSize + blockSize ≤ (c.memory process).length := valid blockId listed
      rwa [size] at inside
    | load metadata locations =>
      obtain ⟨rfl, located⟩ := s.looked opened
      obtain ⟨distinct, inside⟩ := valid
      refine ⟨distinct, fun blockId listed => ?_, fun key blockId location listed => ?_⟩
      · have inside := inside blockId listed
        rwa [size] at inside
      · obtain ⟨data, genuine⟩ := s.inv.known _ _ _ (known_of_looked located listed)
        exact genuine.length

theorem tasks (s : Stepping config blockSize size c event d) {task : Task}
    (live : Live (d.pool process) reference task) : ∃ job original, (d.jobs process)[reference]? = some job ∧
      original ∈ (submission .segment (ioOf config blockSize size process) job).tasks ∧
        task.calls <:+ original.calls := by
  rcases live_moves s.moved live with old | ⟨metadata, job, opening, opens, fresh, jobs, member⟩ |
    ⟨earlier, call, calls, old, next, left⟩
  · obtain ⟨job, original, submitted, rest⟩ := s.inv.tasks _ _ _ old
    exact ⟨job, original, job_kept s.moved submitted, rest⟩
  · rw [s.layout, s.io] at member
    refine ⟨job, task, ?_, member, List.suffix_refl _⟩
    rw [jobs, fresh, s.length, List.getElem?_concat_length]
  · obtain ⟨job, original, submitted, member, suffix⟩ := s.inv.tasks _ _ _ old
    refine ⟨job, original, job_kept s.moved submitted, member, ?_⟩
    rw [next] at suffix
    rw [left]
    exact (rest_suffix c calls call).trans ((List.suffix_cons call calls).trans suffix)

/-- The entries of an old plan were issued. -/
theorem used (s : Stepping config blockSize size c event d) {metadata : JobMetadata} {plan : SegmentStorePlan}
    {source : List UInt8} (submitted : (c.jobs process)[reference]? = some (.store metadata plan source))
    {entry : SegmentWrite} (planned : entry ∈ plan.entries) : Used c.shared (entry.extent blockSize) := by
  obtain ⟨given, _⟩ := s.inv.kept _ _ _ submitted
  have issued := s.inv.safe.planned process plan given entry planned
  rw [s.inv.arguments, s.segmented.same] at issued
  exact .inl issued

/-- A new plan keeps away from the old ones. -/
theorem apart_opened (s : Stepping config blockSize size c event d) {acting : ι} {metadata metadata' : JobMetadata}
    {plan plan' : SegmentStorePlan} {source source' : List UInt8}
    (submitted : (c.jobs process)[reference]? = some (.store metadata plan source))
    (opened : Opened c event d acting (.store metadata' plan' source')) {entry entry' : SegmentWrite}
    (planned : entry ∈ plan.entries) (planned' : entry' ∈ plan'.entries) :
    (entry'.extent blockSize).Disjoint (entry.extent blockSize) := by
  obtain ⟨_, _, db, store, prepared, _⟩ := s.planned opened
  have fresh := (apart_of_prepared s.inv.safe prepared).1 entry' planned' _ (s.used submitted planned)
  rwa [s.inv.arguments, s.segmented.same] at fresh

theorem apart (s : Stepping config blockSize size c event d) {metadata : JobMetadata} {plan : SegmentStorePlan}
    {source : List UInt8} {process' : ι} {reference' : ℕ} {metadata' : JobMetadata} {plan' : SegmentStorePlan}
    {source' : List UInt8} (submitted : (d.jobs process)[reference]? = some (.store metadata plan source))
    (submitted' : (d.jobs process')[reference']? = some (.store metadata' plan' source')) {entry entry' : SegmentWrite}
    (planned : entry ∈ plan.entries) (planned' : entry' ∈ plan'.entries) :
    (process = process' ∧ reference = reference' ∧ entry = entry') ∨
      (entry.extent blockSize).Disjoint (entry'.extent blockSize) := by
  rcases job_of_step s.moved submitted with old | ⟨first, opened⟩ <;>
    rcases job_of_step s.moved submitted' with old' | ⟨first', opened'⟩
  · exact s.inv.apart _ _ _ _ _ _ _ _ _ _ old old' entry planned entry' planned'
  · exact .inr (s.apart_opened old opened' planned planned').symm
  · exact .inr (s.apart_opened old' opened planned' planned)
  · -- both are the job that this step submits
    obtain ⟨same, _, db, store, prepared, _⟩ := s.planned opened
    obtain ⟨same', _⟩ := s.planned opened'
    obtain ⟨rfl, rfl⟩ := ClusterEvent.submitStore.inj (same.symm.trans same')
    rw [first'] at submitted'
    rw [first] at submitted
    cases submitted.symm.trans submitted'
    rcases eq_or_ne entry entry' with rfl | differ
    · exact .inl ⟨rfl, first.trans first'.symm, rfl⟩
    · have pairwise := (apart_of_prepared s.inv.safe prepared).2
      rw [s.inv.arguments, s.segmented.same] at pairwise
      have symmetric : Std.Symm fun first second : SegmentWrite =>
          (first.extent blockSize).Disjoint (second.extent blockSize) := ⟨fun _ _ => Extent.Disjoint.symm⟩
      exact .inr (pairwise.forall planned planned' differ)

/-- A step of a worker of a store leaves the primary tiers alone. -/
theorem memory_of_store (s : Stepping config blockSize size c event d) {metadata : JobMetadata}
    {plan : SegmentStorePlan} {source : List UInt8}
    (submitted : (c.jobs process)[reference]? = some (.store metadata plan source))
    (works : Works c process reference event) : d.memory = c.memory := by
  rcases bytes_of_step s.moved with ⟨_, memory⟩ | ⟨_, _, _, rfl, _⟩ |
    ⟨acting, job, task, call, calls, middle, works', live, next, made, _, memory⟩
  · exact memory
  · exact works.elim
  · obtain ⟨rfl, rfl⟩ := works_unique works works'
    have listed : call ∈ task.calls := by simp [next]
    obtain ⟨⟨_, _, _, rfl⟩, _⟩ := s.inv.store_call submitted live listed
    rcases memory_of_made made with unchanged | ⟨data, scattered⟩
    · rw [memory, unchanged]
    · rw [memory, scattered]
      exact Function.update_eq_self process c.memory

theorem sources (s : Stepping config blockSize size c event d) {metadata : JobMetadata} {plan : SegmentStorePlan}
    {source : List UInt8} (submitted : (d.jobs process)[reference]? = some (.store metadata plan source))
    (inFlight : InFlight (d.pool process) reference) {blockId : ℕ} (listed : blockId ∈ metadata.blockIds) :
    slot blockSize d process blockId = readAt source (blockId * blockSize) blockSize := by
  rcases job_of_step s.moved submitted with old | ⟨_, opened⟩
  · have before := s.inFlight old inFlight
    rw [← s.inv.sources _ _ _ _ _ old before _ listed]
    by_cases works : Works c process reference event
    · rw [slot, s.memory_of_store old works, slot]
    · exact s.undisturbed _ _ _ old before works _ listed
  · obtain ⟨_, rfl, _⟩ := s.planned opened
    rw [slot, opened.memory]

/-! ### Entries -/

/-- The call that writes an entry leaves the bytes of its block there. -/
theorem holds_of_performed (s : Stepping config blockSize size c event d) {metadata : JobMetadata}
    {plan : SegmentStorePlan} {source : List UInt8}
    (submitted : (c.jobs process)[reference]? = some (.store metadata plan source)) {entry : SegmentWrite}
    (planned : entry ∈ plan.entries) {task : Task} {call : IoCall} (live : Live (c.pool process) reference task)
    (listed : call ∈ task.calls) {middle : Cluster ι} (performed : c.perform process call = some middle)
    (placed : writeTransfer (ioOf config blockSize size process) entry ∈ transfers call) :
    Holds (middle.segments entry.segmentId) entry.offset (readAt source (entry.blockId * blockSize) blockSize) := by
  obtain ⟨inBlocks, inside⟩ := s.inv.inside_entry submitted planned
  obtain ⟨⟨segmentId, offset, views, rfl⟩, _⟩ := s.inv.store_call submitted live listed
  rw [writeTransfer_eq inside] at placed
  obtain ⟨part, member, same⟩ := List.mem_map.mp placed
  obtain ⟨container, start, slice⟩ := BlockTransfer.mk.inj same
  have written := holds_of_gather ((s.inv.fits live listed).2 _ _ _ rfl)
    (holds_writeAt (c.segments segmentId) offset (gather (c.memory process) views)) member
  have unchanged : readAt (c.memory process) (entry.blockId * blockSize) blockSize =
      readAt source (entry.blockId * blockSize) blockSize :=
    s.inv.sources _ _ _ _ _ submitted (inFlight_of_live live) _ inBlocks
  cases performed
  rw [← container, ← start, ← unchanged]
  simp only [Cluster.setSegment, Function.update_self]
  rwa [slice] at written

/-- A transfer that a live task has still to make is still to be made, lost with its job, or made by this step. -/
theorem pending (s : Stepping config blockSize size c event d) {transfer : BlockTransfer}
    (pending : Pending c process reference transfer)
    (goesOn : ∀ task, Live (c.pool process) reference task → ∀ call ∈ task.calls, ∀ calls, c.rest calls call = calls) :
    Pending d process reference transfer ∨ Lost (d.events process) (d.pool process) reference ∨
      ∃ task call middle, Live (c.pool process) reference task ∧ call ∈ task.calls ∧ transfer ∈ transfers call ∧
        c.perform process call = some middle ∧ d.segments = middle.segments ∧ d.memory = middle.memory := by
  obtain ⟨task, live, placed⟩ := pending
  rcases live_kept s.moved (s.balanced process reference) live with still | lost | ⟨call, rest, performs⟩ | ended
  · exact .inl ⟨task, still, placed⟩
  · exact .inr (.inl lost)
  · obtain ⟨calls, next, left⟩ := performs.next
    have listed : call ∈ task.calls := by simp [next]
    rw [next, List.flatMap_cons] at placed
    rcases List.mem_append.mp placed with now | later
    · obtain ⟨middle, made⟩ := performs.performed
      exact .inr (.inr ⟨task, call, middle, live, listed, now, made⟩)
    · refine .inl ⟨rest, performs.live, ?_⟩
      rw [left, goesOn task live call listed]
      exact later
  · simp [ended] at placed

theorem written (s : Stepping config blockSize size c event d) {metadata : JobMetadata} {plan : SegmentStorePlan}
    {source : List UInt8} (submitted : (d.jobs process)[reference]? = some (.store metadata plan source))
    {entry : SegmentWrite} (planned : entry ∈ plan.entries) :
    Holds (d.segments entry.segmentId) entry.offset (readAt source (entry.blockId * blockSize) blockSize) ∨
      Pending d process reference (writeTransfer (ioOf config blockSize size process) entry) ∨
      Lost (d.events process) (d.pool process) reference := by
  have kept := s.kept submitted
  rcases job_of_step s.moved submitted with old | ⟨first, opened⟩
  · rcases s.inv.written _ _ _ _ _ old entry planned with holds | pending | lost
    · exact .inl (s.holds old planned holds)
    · have goesOn : ∀ task, Live (c.pool process) reference task → ∀ call ∈ task.calls, ∀ calls,
          c.rest calls call = calls := by
        intro task live call listed calls
        obtain ⟨⟨_, _, _, rfl⟩, _⟩ := s.inv.store_call old live listed
        rfl
      rcases s.pending pending goesOn with
        still | lost | ⟨task, call, middle, live, listed, now, performed, segments, _⟩
      · exact .inr (.inl still)
      · exact .inr (.inr lost)
      · rw [segments]
        exact .inl (s.holds_of_performed old planned live listed performed now)
    · exact .inr (.inr (s.lost old lost))
  · -- the job is submitted by this step, and all of its tasks are queued
    obtain ⟨_, _, inside, given⟩ := kept
    have insideEntry : ∀ entry ∈ plan.entries, Inside (ioOf config blockSize size process) entry.blockId :=
      fun entry planned => inside _ (List.of_mem_zip (given entry planned)).2
    obtain ⟨task, member, placed⟩ := (mem_transfers_store (config process).maxBuffers_pos insideEntry).mpr
      ⟨entry, planned, rfl⟩
    have live := opened.live task (by rw [s.layout, s.io]; exact member)
    rw [s.length, ← first] at live
    exact .inr (.inl ⟨task, live, placed⟩)

/-! ### Positions -/

/-- The plan that a callback with success indexes is that of a job whose entries are all written. -/
theorem indexed (s : Stepping config blockSize size c event d) {worker : Worker Task} {plan : SegmentStorePlan}
    (member : worker ∈ (c.pool process).workers) (calling : worker.state = .inCallback reference true)
    (callback : ((c.pool process).jobState reference).onComplete = some plan) :
    ∃ metadata source, (c.jobs process)[reference]? = some (.store metadata plan source) ∧
      true ∈ calls (c.events process) reference ∧ ∀ entry ∈ plan.entries,
        Holds (c.segments entry.segmentId) entry.offset (readAt source (entry.blockId * blockSize) blockSize) := by
  obtain ⟨nothingLive, notLost, called, some⟩ := settled_of_inCallback (s.balanced process reference) member calling
  have opened : reference < (c.jobs process).length := by
    rw [← s.length]
    by_contra! unopened
    rw [jobState_unopened unopened] at some
    exact some rfl
  cases submitted : (c.jobs process)[reference]? with
  | none => exact absurd opened (not_lt.mpr (List.getElem?_eq_none_iff.mp submitted))
  | some job =>
    have same := (s.inv.jobState (s.seen process) submitted).2.symm.trans callback
    cases job with
    | load => cases same
    | store metadata plan source =>
      cases same
      refine ⟨metadata, source, rfl, called, fun entry planned => ?_⟩
      rcases s.inv.written _ _ _ _ _ submitted entry planned with holds | ⟨task, live, _⟩ | lost
      · exact holds
      · exact absurd live (nothingLive task)
      · exact absurd lost notLost

theorem known (s : Stepping config blockSize size c event d) {key : OffloadKey} {location : SegmentLocation}
    (known : Known d.shared process key location) : ∃ data, Genuine blockSize c key location data := by
  rcases tables_of_step s.moved with same | ⟨operation, moved, kind⟩
  · rw [same] at known
    exact s.inv.known _ _ _ known
  · rcases known_or_added moved known with earlier | ⟨acting, plan, given, indexing, row⟩
    · exact s.inv.known _ _ _ earlier
    · rw [s.inv.arguments, s.segmented.same] at row
      have completing : ∃ worker reference, worker ∈ (c.pool acting).workers ∧
          worker.state = .inCallback reference true ∧
            ((c.pool acting).jobState reference).onComplete = some plan := by
        rcases indexing with rfl | ⟨read, rfl⟩ <;> rcases kind with plain | completing
        · exact plain.elim
        · cases completing with
          | completed member calling callback => exact ⟨_, _, member, calling, callback⟩
        · exact plain.elim
        · cases completing with
          | committed member calling callback => exact ⟨_, _, member, calling, callback⟩
      obtain ⟨worker, reference, member, calling, callback⟩ := completing
      obtain ⟨metadata, source, submitted, called, holds⟩ := s.indexed member calling callback
      rcases entry_of_indexPlan row with old | ⟨entry, planned, rfl, rfl⟩
      · exact s.inv.known acting _ _ (.inr old)
      · exact ⟨_, acting, reference, metadata, plan, source, entry, submitted, planned,
          (s.inv.kept _ _ _ submitted).2.2.2 entry planned, rfl, rfl, s.inv.length_source submitted planned, called,
          holds entry planned⟩

/-! ### Loads -/

/-- The call that reads a position leaves in its block what the position holds. -/
theorem slot_of_performed (s : Stepping config blockSize size c event d) {metadata : JobMetadata}
    {locations : List (Option SegmentLocation)}
    (submitted : (c.jobs process)[reference]? = some (.load metadata locations)) {task : Task} {call : IoCall}
    (live : Live (c.pool process) reference task) (listed : call ∈ task.calls) {middle : Cluster ι}
    (performed : c.perform process call = some middle) {key : OffloadKey} {blockId : ℕ} {location : SegmentLocation}
    (inZip : (key, blockId, some location) ∈ metadata.keys.zip (metadata.blockIds.zip locations))
    {data : List UInt8} (genuine : Genuine blockSize c key location data)
    (placed : readTransfer (ioOf config blockSize size process) location blockId ∈ transfers call) :
    slot blockSize middle process blockId = data := by
  rw [readTransfer_eq location (s.inv.inside_load submitted inZip)] at placed
  rcases (s.inv.load_call submitted live listed).1 with ⟨segmentId, offset, views, rfl⟩ | ⟨_, _, _, rfl⟩
  · obtain ⟨part, member, same⟩ := List.mem_map.mp placed
    obtain ⟨container, start, slice⟩ := BlockTransfer.mk.inj same
    simp only [Cluster.perform] at performed
    split at performed
    · next complete =>
      cases performed
      have read := readAt_scatter (s.inv.fits live listed).1 complete (s.inv.views_apart submitted live listed) member
      obtain ⟨_, _, _, _, _, _, backed⟩ := genuine
      have held := readAt_of_holds backed.holds
      rw [slice, start] at read
      rw [backed.whole, ← container] at held
      simp only [slot, Cluster.setMemory, Function.update_self]
      exact read.trans held
    · cases performed
  · simp [transfers] at placed

/-- The other calls leave the block alone. -/
theorem slot_of_other (s : Stepping config blockSize size c event d) {metadata : JobMetadata}
    {locations : List (Option SegmentLocation)}
    (submitted : (c.jobs process)[reference]? = some (.load metadata locations)) {task : Task} {call : IoCall}
    (live : Live (c.pool process) reference task) (listed : call ∈ task.calls) {middle : Cluster ι}
    (performed : c.perform process call = some middle) {key : OffloadKey} {blockId : ℕ} {location : SegmentLocation}
    (inZip : (key, blockId, some location) ∈ metadata.keys.zip (metadata.blockIds.zip locations))
    (elsewhere : readTransfer (ioOf config blockSize size process) location blockId ∉ transfers call) :
    slot blockSize middle process blockId = slot blockSize c process blockId := by
  obtain ⟨distinct, _⟩ := s.inv.kept _ _ _ submitted
  rcases memory_of_made (.inl performed) with unchanged | ⟨data, scattered⟩
  · rw [slot, unchanged, slot]
  · rw [slot, scattered, Function.update_self]
    refine readAt_scatter_apart (s.inv.fits live listed).1 (fun slice into => ?_) data
    obtain ⟨key', blockId', location', inZip', rfl, placed⟩ := (s.inv.load_call submitted live listed).2 slice into
    apply apart_of_ne
    intro same
    obtain ⟨_, rfl⟩ := zip_zip_unique distinct inZip (same ▸ inZip')
    exact elsewhere (same ▸ placed location rfl)

/-- A block that has been loaded stays as it is while the job is in flight. -/
theorem slot_kept (s : Stepping config blockSize size c event d) {metadata : JobMetadata}
    {locations : List (Option SegmentLocation)}
    (submitted : (c.jobs process)[reference]? = some (.load metadata locations)) {key : OffloadKey} {blockId : ℕ}
    {location : SegmentLocation}
    (inZip : (key, blockId, some location) ∈ metadata.keys.zip (metadata.blockIds.zip locations))
    {data : List UInt8} (genuine : Genuine blockSize c key location data)
    (inFlight : InFlight (c.pool process) reference) (loaded : slot blockSize c process blockId = data) :
    slot blockSize d process blockId = data ∨ Lost (d.events process) (d.pool process) reference := by
  by_cases works : Works c process reference event
  · rcases memory_of_works s.moved works with same | lost | ⟨task, call, calls, middle, live, next, performed, memory⟩
    · left
      rw [slot, same]
      exact loaded
    · exact .inr lost
    · have listed : call ∈ task.calls := by simp [next]
      left
      rw [slot, memory, ← slot]
      by_cases placed : readTransfer (ioOf config blockSize size process) location blockId ∈ transfers call
      · exact s.slot_of_performed submitted live listed performed inZip genuine placed
      · rw [s.slot_of_other submitted live listed performed inZip placed, loaded]
  · left
    rw [← loaded]
    exact s.undisturbed _ _ _ submitted inFlight works _ (List.of_mem_zip (List.of_mem_zip inZip).2).1

theorem loaded (s : Stepping config blockSize size c event d) {metadata : JobMetadata}
    {locations : List (Option SegmentLocation)}
    (submitted : (d.jobs process)[reference]? = some (.load metadata locations)) {key : OffloadKey} {blockId : ℕ}
    {location : SegmentLocation}
    (inZip : (key, blockId, some location) ∈ metadata.keys.zip (metadata.blockIds.zip locations)) :
    ∃ data, Genuine blockSize d key location data ∧ (InFlight (d.pool process) reference →
      slot blockSize d process blockId = data ∨
        Pending d process reference (readTransfer (ioOf config blockSize size process) location blockId) ∨
        Lost (d.events process) (d.pool process) reference) := by
  have kept := s.kept submitted
  rcases job_of_step s.moved submitted with old | ⟨first, opened⟩
  · obtain ⟨data, genuine, progress⟩ := s.inv.loaded _ _ _ _ old _ _ _ inZip
    refine ⟨data, s.genuine genuine, fun inFlight => ?_⟩
    have before := s.inFlight old inFlight
    rcases progress before with loaded | pending | lost
    · exact (s.slot_kept old inZip genuine before loaded).imp_right .inr
    · have goesOn : ∀ task, Live (c.pool process) reference task → ∀ call ∈ task.calls, ∀ calls,
          c.rest calls call = calls := by
        intro task live call listed calls
        rcases (s.inv.load_call old live listed).1 with ⟨_, _, _, rfl⟩ | ⟨_, _, _, rfl⟩ <;> rfl
      rcases s.pending pending goesOn with still | lost | ⟨task, call, middle, live, listed, now, performed, _, memory⟩
      · exact .inr (.inl still)
      · exact .inr (.inr lost)
      · left
        rw [slot, memory, ← slot]
        exact s.slot_of_performed old live listed performed inZip genuine now
    · exact .inr (.inr (s.lost old lost))
  · obtain ⟨_, located⟩ := s.looked opened
    obtain ⟨data, genuine⟩ := s.inv.known _ _ _ (known_of_looked located inZip)
    refine ⟨data, s.genuine genuine, fun _ => .inr (.inl ?_)⟩
    obtain ⟨task, member, placed⟩ := (mem_transfers_load (config process).maxBuffers_pos kept.2.2).mpr
      ⟨key, blockId, location, inZip, rfl⟩
    have live := opened.live task (by rw [s.layout, s.io]; exact member)
    rw [s.length, ← first] at live
    exact ⟨task, live, placed⟩

/-! ### The invariant -/

theorem step (s : Stepping config blockSize size c event d) : Inv config blockSize size d where
  safe := s.safe
  arguments := s.arguments
  sized := s.sized
  announced := s.announced
  kept _ _ _ := s.kept
  tasks _ _ _ := s.tasks
  apart _ _ _ _ _ _ _ _ _ _ submitted submitted' _ planned _ planned' := s.apart submitted submitted' planned planned'
  sources _ _ _ _ _ submitted inFlight _ := s.sources submitted inFlight
  written _ _ _ _ _ submitted _ := s.written submitted
  known _ _ _ known := (s.known known).imp fun _ => s.genuine
  loaded _ _ _ _ submitted _ _ _ := s.loaded submitted

end Stepping

/-! ## Runs -/

section Run

variable {config : ι → TierConfig} {blockSize : ℕ} {segments : ℕ → List UInt8}
  {files : OffloadKey → Option (List UInt8)} {memory : ι → List UInt8} {events later : List (ClusterEvent ι)}
  {c d : Cluster ι} {event : ClusterEvent ι}

omit [DecidableEq ι] in
theorem inv_init : Inv config blockSize (fun process => (memory process).length)
    (.init config .empty segments files memory) where
  safe := safe_init .empty _ rfl
  arguments _ := rfl
  sized _ := rfl
  announced _ := rfl
  kept _ _ _ submitted := by simp [Cluster.init] at submitted
  tasks process reference task live := by
    rcases live with queued | ⟨worker, member, running⟩
    · simp [Cluster.init, Pool.init] at queued
    · rw [workers_init _ _ member] at running
      cases running
  apart _ _ _ _ _ _ _ _ _ _ submitted := by simp [Cluster.init] at submitted
  sources _ _ _ _ _ submitted := by simp [Cluster.init] at submitted
  written _ _ _ _ _ submitted := by simp [Cluster.init] at submitted
  known process key location known := by
    rcases known with cached | row
    · simp [Cluster.init, SharedStore.init, SegmentStore.init] at cached
    · simp [Cluster.init, SharedStore.init, Database.empty] at row
  loaded _ _ _ _ submitted := by simp [Cluster.init] at submitted

theorem steps_of_promised {start : Cluster ι} (run : Run (Promised blockSize) start events c) :
    Run (Steps Cluster.step) start events c :=
  run.mono fun _ _ _ promised => promised.1

theorem stepping (segmented : Segmented config blockSize)
    (run : Run (Promised blockSize) (.init config .empty segments files memory) events c)
    (inv : Inv config blockSize (fun process => (memory process).length) c) (promised : Promised blockSize c event d) :
    Stepping config blockSize (fun process => (memory process).length) c event d where
  segmented := segmented
  inv := inv
  configured := config_of_run (steps_of_promised run)
  seen := poolRun (steps_of_promised run)
  moved := promised.1
  valid := promised.2.1
  undisturbed := promised.2.2

theorem inv_of_run (segmented : Segmented config blockSize)
    (run : Run (Promised blockSize) (.init config .empty segments files memory) events c) :
    Inv config blockSize (fun process => (memory process).length) c :=
  run.invariant (fun _ c => Inv config blockSize (fun process => (memory process).length) c) inv_init
    fun _ _ _ _ before inv promised => (stepping segmented before inv promised).step

theorem genuine_of_run (segmented : Segmented config blockSize)
    (run : Run (Promised blockSize) (.init config .empty segments files memory) events c)
    (continued : Run (Promised blockSize) c later d) {key : OffloadKey} {location : SegmentLocation}
    {data : List UInt8} (genuine : Genuine blockSize c key location data) :
    Genuine blockSize d key location data := by
  induction continued with
  | nil => exact genuine
  | snoc before promised ih =>
    have reached := run.append before
    exact (stepping segmented reached (inv_of_run segmented reached) promised).genuine ih

/-! ## Integrity -/

/-- The position holds a block that one store job for the key read from its slot, and every write task of that job
has succeeded. -/
def Stored (blockSize : ℕ) (c : Cluster ι) (key : OffloadKey) (location : SegmentLocation) (data : List UInt8) : Prop :=
  ∃ process reference metadata plan source entry,
    Backed blockSize c key location data process reference metadata plan source entry ∧
      outcomes (c.events process) reference = List.replicate (segmentStoreTasks (c.io process) plan).length true

theorem stored_of_genuine (segmented : Segmented config blockSize)
    (run : Run (Promised blockSize) (.init config .empty segments files memory) events c) {key : OffloadKey}
    {location : SegmentLocation} {data : List UInt8} (genuine : Genuine blockSize c key location data) :
    Stored blockSize c key location data := by
  obtain ⟨process, reference, metadata, plan, source, entry, backed⟩ := genuine
  have inv := inv_of_run segmented run
  have seen := poolRun (steps_of_promised run) process
  have io : c.io process = ioOf config blockSize (fun process => (memory process).length) process := by
    simp only [Cluster.io, ioOf, config_of_run (steps_of_promised run), segmented.same, inv.sized]
  refine ⟨process, reference, metadata, plan, source, entry, backed, ?_⟩
  rw [outcomes_of_called (inv.balanced seen reference) backed.called, (inv.jobState seen backed.stored).1, io]
  rfl

/-- What is stored at a position is read there ever after. -/
theorem readAt_of_run (segmented : Segmented config blockSize)
    (run : Run (Promised blockSize) (.init config .empty segments files memory) events c)
    (continued : Run (Promised blockSize) c later d) {key : OffloadKey} {location : SegmentLocation}
    {data : List UInt8} (genuine : Genuine blockSize c key location data) :
    readAt (d.segments location.segmentId) location.offset location.length = data := by
  have still := genuine_of_run segmented run continued genuine
  have length := still.length
  obtain ⟨_, _, _, _, _, _, backed⟩ := still
  rw [length, ← backed.whole]
  exact readAt_of_holds backed.holds

/-- A load that is reported as a success has brought to each block what is stored at the location of its key. -/
theorem loaded_of_finished (segmented : Segmented config blockSize)
    (run : Run (Promised blockSize) (.init config .empty segments files memory) events c) {process : ι} {reference : ℕ}
    (moved : c.step (.getFinished process reference true) = some d) {metadata : JobMetadata}
    {locations : List (Option SegmentLocation)}
    (submitted : (c.jobs process)[reference]? = some (.load metadata locations)) {key : OffloadKey} {blockId : ℕ}
    {location : SegmentLocation}
    (inZip : (key, blockId, some location) ∈ metadata.keys.zip (metadata.blockIds.zip locations)) :
    ∃ data, Genuine blockSize d key location data ∧ slot blockSize d process blockId = data := by
  obtain ⟨pool, stepped, rfl⟩ := poolStep_cases moved
  have inv := inv_of_run segmented run
  have s := stepping segmented run inv ⟨moved, trivial, fun _ _ _ _ _ _ _ _ => rfl⟩
  have queue : (reference, true) ∈ (c.pool process).finishedQ := by
    rw [(Pool.getFinished_cases stepped).1]
    exact List.mem_cons_self ..
  have reported : true ∈ reports (c.events process) reference := by
    rw [mem_reports_iff, ← finished_of_run (s.seen process)]
    exact List.mem_append_right _ queue
  obtain ⟨nothingLive, notLost⟩ := settled_of_reported (s.balanced process reference) reported
  obtain ⟨data, genuine, progress⟩ := inv.loaded _ _ _ _ submitted _ _ _ inZip
  refine ⟨data, s.genuine genuine, ?_⟩
  rcases progress (.inr (.inr ⟨true, queue⟩)) with loaded | ⟨task, live, _⟩ | lost
  · exact loaded
  · exact absurd live (nothingLive task)
  · exact absurd lost notLost

/-- Integrity from end to end: every row and every cached location of a process names a position that holds, and
keeps, what one store job for the key read from its slot, all of whose tasks had succeeded before the position could
be offered. When a load is handed out as a success, every block served from a segment holds such bytes. -/
theorem integrity (segmented : Segmented config blockSize)
    (run : Run (Promised blockSize) (.init config .empty segments files memory) events c) :
    (∀ process key location, Known c.shared process key location → ∃ data, Stored blockSize c key location data ∧
      location.length = blockSize ∧ ∀ later d, Run (Promised blockSize) c later d →
        readAt (d.segments location.segmentId) location.offset location.length = data) ∧
    (∀ event d, Promised blockSize c event d → ∀ process key location, Known d.shared process key location →
      ∃ data, Stored blockSize c key location data) ∧
    ∀ process reference d, c.step (.getFinished process reference true) = some d → ∀ metadata locations,
      (c.jobs process)[reference]? = some (.load metadata locations) → ∀ key blockId location,
        (key, blockId, some location) ∈ metadata.keys.zip (metadata.blockIds.zip locations) →
          ∃ data, Stored blockSize d key location data ∧ slot blockSize d process blockId = data := by
  refine ⟨fun process key location known => ?_, fun event d promised process key location known => ?_,
    fun process reference d moved metadata locations submitted key blockId location inZip => ?_⟩
  · obtain ⟨data, genuine⟩ := (inv_of_run segmented run).known _ _ _ known
    exact ⟨data, stored_of_genuine segmented run genuine, genuine.length, fun later d continued =>
      readAt_of_run segmented run continued genuine⟩
  · obtain ⟨data, genuine⟩ := (stepping segmented run (inv_of_run segmented run) promised).known known
    exact ⟨data, stored_of_genuine segmented run genuine⟩
  · obtain ⟨data, genuine, same⟩ := loaded_of_finished segmented run moved submitted inZip
    refine ⟨data, stored_of_genuine segmented (.snoc run ⟨moved, trivial, ?_⟩) genuine, same⟩
    obtain ⟨pool, _, rfl⟩ := poolStep_cases moved
    exact fun _ _ _ _ _ _ _ _ => rfl

end Run

/-! ## Promises that can be checked -/

instance (p : Pool Task SegmentStorePlan) (job : ℕ) : Decidable (InFlight p job) :=
  inferInstanceAs (Decidable (_ ∨ _ ∨ _))

instance (state : WorkerState Task) (job : ℕ) : Decidable (∃ task, state = .running task job) :=
  match state with
  | .running task other =>
    decidable_of_iff (other = job) ⟨fun same => ⟨task, by rw [same]⟩, fun ⟨_, same⟩ => (WorkerState.running.inj same).2⟩
  | .waiting | .unwinding _ _ | .ended _ _ | .completing _ _ | .inCallback _ _ | .reporting _ _ | .exited =>
    .isFalse fun ⟨_, same⟩ => by cases same

instance (c : Cluster ι) (process : ι) (reference : ℕ) (event : ClusterEvent ι) :
    Decidable (Works c process reference event) :=
  match event with
  | .worker acting index _ _ =>
    decidable_of_iff (acting = process ∧ ∃ worker ∈ (c.pool process).workers[index]?,
      ∃ task, worker.state = .running task reference) (by simp [Works])
  | .submitStore _ _ | .submitLoad _ _ | .lookUp _ _ | .delete _ _ | .unlink _ _ | .shutdown _ | .getFinished _ _ _
  | .primaryWrite _ _ _ => .isFalse id

instance (blockSize : ℕ) (c : Cluster ι) (event : ClusterEvent ι) : Decidable (Valid blockSize c event) :=
  match event with
  | .submitStore process metadata => inferInstanceAs (Decidable (∀ blockId ∈ metadata.blockIds,
      blockId * blockSize + blockSize ≤ (c.memory process).length))
  | .submitLoad process metadata => inferInstanceAs (Decidable (metadata.blockIds.Nodup ∧
      ∀ blockId ∈ metadata.blockIds, blockId * blockSize + blockSize ≤ (c.memory process).length))
  | .lookUp _ _ | .delete _ _ | .unlink _ _ | .shutdown _ | .getFinished _ _ _ | .primaryWrite _ _ _
  | .worker _ _ _ _ => .isTrue trivial

instance [Fintype ι] (blockSize : ℕ) (c : Cluster ι) (event : ClusterEvent ι) (d : Cluster ι) :
    Decidable (Undisturbed blockSize c event d) :=
  decidable_of_iff (∀ process, ∀ reference < (c.jobs process).length, ∀ job ∈ (c.jobs process)[reference]?,
    InFlight (c.pool process) reference → ¬Works c process reference event →
      ∀ blockId ∈ job.metadata.blockIds, slot blockSize d process blockId = slot blockSize c process blockId)
    ⟨fun bounded process reference job submitted =>
      bounded process reference (List.getElem?_eq_some_iff.mp submitted).1 job submitted,
    fun all process reference _ job => all process reference job⟩

/-- A step that keeps the promise, for finitely many processes. -/
def promisedStep [Fintype ι] (blockSize : ℕ) (c : Cluster ι) (event : ClusterEvent ι) : Option (Cluster ι) :=
  (c.step event).filter fun d => decide (Valid blockSize c event ∧ Undisturbed blockSize c event d)

theorem promised_of_step [Fintype ι] {blockSize : ℕ} {c d : Cluster ι} {event : ClusterEvent ι}
    (moved : promisedStep blockSize c event = some d) : Promised blockSize c event d := by
  obtain ⟨stepped, kept⟩ := Option.filter_eq_some_iff.mp moved
  exact ⟨stepped, of_decide_eq_true kept⟩

/-- Two processes in the segment layout, with one worker each. -/
def alikeConfig (_ : Bool) : TierConfig where
  storageLayout := .segment
  segments := ⟨8, 16, 10, by decide, by decide, by decide, by decide⟩
  maxBuffers := 9
  maxBuffers_pos := by decide
  nReadThreads := 1
  nWriteThreads := 0

def alikeStart : Cluster Bool :=
  .init alikeConfig .empty (fun _ => []) (fun _ => none) fun process =>
    if process then List.replicate 8 0 else (List.range 16).map UInt8.ofNat

/-- One process stores the second of its blocks, and the other loads it into its only one. -/
def sharedTape : List (ClusterEvent Bool) :=
  [.submitStore false ⟨1, [[1]], [1]⟩, .worker false 0 .take .completed,
    .worker false 0 (.work ⟨[], .reraise⟩) .completed, .worker false 0 (.taskEnded 0 true) .completed,
    .worker false 0 (.taskDone 0 true) .completed, .worker false 0 (.called 0 true) .completed,
    .worker false 0 (.returned 0 true) .completed, .worker false 0 (.reported 0 true) .completed,
    .submitLoad true ⟨2, [[1]], [0]⟩, .worker true 0 .take .completed,
    .worker true 0 (.work ⟨[], .delete [[1]]⟩) .completed, .worker true 0 (.taskEnded 0 true) .completed,
    .worker true 0 (.taskDone 0 true) .completed, .worker true 0 (.reported 0 true) .completed]

theorem integrity_shared : ∃ c d, Run (Promised 8) alikeStart sharedTape c ∧
    c.step (.getFinished true 0 true) = some d ∧ (∃ data, Stored 8 c [1] ⟨0, 0, 8⟩ data ∧
      readAt (c.segments 0) 0 8 = data) ∧ ∃ data, Stored 8 d [1] ⟨0, 0, 8⟩ data ∧ slot 8 d true 0 = data := by
  have executed : (replay (promisedStep 8) alikeStart sharedTape).map (fun c =>
      (c.shared.db.blocks.get? [1], (c.jobs true)[0]?, (c.step (.getFinished true 0 true)).isSome)) =
        some (some ⟨0, 0, 8⟩, some (.load ⟨2, [[1]], [0]⟩ [some ⟨0, 0, 8⟩]), true) := by decide +kernel
  obtain ⟨c, replayed, facts⟩ := Option.map_eq_some_iff.mp executed
  simp only [Prod.mk.injEq] at facts
  obtain ⟨row, submitted, finished⟩ := facts
  obtain ⟨d, moved⟩ := Option.isSome_iff_exists.mp finished
  have run : Run (Promised 8) alikeStart sharedTape c :=
    (Run.of_replay replayed).mono fun _ _ _ => promised_of_step
  have alike : Segmented alikeConfig 8 := ⟨fun _ => rfl, fun _ => rfl⟩
  obtain ⟨offered, _, loaded⟩ := integrity alike run
  obtain ⟨data, stored, _, kept⟩ := offered true [1] ⟨0, 0, 8⟩ (.inr row)
  exact ⟨c, d, run, moved, ⟨data, stored, kept [] c .nil⟩,
    loaded true 0 d moved _ _ submitted [1] 0 ⟨0, 0, 8⟩ (by simp)⟩

end KVTiering.Soundness.Cluster
