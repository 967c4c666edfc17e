import KVTiering.Soundness.Cluster
import KVTiering.Soundness.PoolDrain

/-! # Draining the jobs of a tier

A job is completed by the last of its tasks, so a job without tasks is never completed. A store in the segment
layout always has a task; the other submissions have one for each key or group of keys, and none without keys.
-/

namespace KVTiering.Soundness.Cluster

open Model ThreadPool

variable {ι : Type}

/-- The job is given to the pool with a task. -/
def HasTask (layout : StorageLayout) : TierJob → Prop
  | .store metadata _ _ => layout = .segment ∨ metadata.keys ≠ []
  | .load metadata _ => metadata.keys ≠ []

/-- The event submits as many blocks as keys. -/
def Matched : ClusterEvent ι → Prop
  | .submitStore _ metadata | .submitLoad _ metadata => metadata.keys.length = metadata.blockIds.length
  | _ => True

/-- The lists of a job go together. -/
def Aligned : TierJob → Prop
  | .store metadata _ _ => metadata.keys.length = metadata.blockIds.length
  | .load metadata locations =>
    metadata.keys.length = metadata.blockIds.length ∧ locations.length = metadata.keys.length

/-! ## The tasks of a job -/

theorem segmentStoreTasks_ne_nil (io : IoConfig) (plan : SegmentStorePlan) : segmentStoreTasks io plan ≠ [] := by
  dsimp only [segmentStoreTasks]
  split
  · exact List.cons_ne_nil _ _
  · assumption

/-- Each key of a load in the segment layout is in a task. -/
theorem segmentLoadTasks_ne_nil (io : IoConfig) {keys : List OffloadKey} {blockIds : List ℕ}
    {locations : List (Option SegmentLocation)} (blocks : keys.length = blockIds.length)
    (located : locations.length = keys.length) (some : keys ≠ []) :
    segmentLoadTasks io keys blockIds locations ≠ [] := by
  intro none
  obtain ⟨noFile, noSegment⟩ := List.append_eq_nil_iff.mp none
  have unlocated := List.filter_eq_nil_iff.mp (List.map_eq_nil_iff.mp noFile)
  have ungrouped := List.map_eq_nil_iff.mp noSegment
  have perm := Dict.perm_groupOn (fun entry : OffloadKey × ℕ × SegmentLocation => entry.2.2.segmentId)
    ((keys.zip (blockIds.zip locations)).filterMap fun item =>
      item.2.2.map fun location => (item.1, item.2.1, location))
  rw [segmentEntries] at ungrouped
  rw [ungrouped, List.flatten_nil] at perm
  have unseparated := List.filterMap_eq_nil_iff.mp perm.nil_eq.symm
  have nothing : keys.zip (blockIds.zip locations) = [] := by
    apply List.eq_nil_iff_forall_not_mem.mpr
    intro item member
    have isSome := unlocated item member
    have isNone := unseparated item member
    cases location : item.2.2 <;> simp [location] at isSome isNone
  have length := congrArg List.length nothing
  simp only [List.length_zip, List.length_nil] at length
  have positive := List.length_pos_of_ne_nil some
  omega

/-- The pool is told how many tasks it is given. -/
theorem counted_submission {layout : StorageLayout} {job : TierJob} (aligned : Aligned job) (io : IoConfig) :
    (submission layout io job).nTasks = (submission layout io job).tasks.length := by
  cases job with
  | store metadata plan source =>
    cases layout with
    | segment => rfl
    | file =>
      have blocks : metadata.keys.length = metadata.blockIds.length := aligned
      simp [submission, fileStoreTasks, blocks]
  | load metadata locations =>
    cases layout with
    | segment => rfl
    | file =>
      obtain ⟨blocks, _⟩ := aligned
      simp [submission, fileLoadTasks, blocks]

theorem nTasks_ne_zero_iff {layout : StorageLayout} {job : TierJob} (aligned : Aligned job) (io : IoConfig) :
    (submission layout io job).nTasks ≠ 0 ↔ HasTask layout job := by
  cases job with
  | store metadata plan source =>
    cases layout with
    | segment => simp [submission, HasTask, segmentStoreTasks_ne_nil]
    | file => simp [submission, HasTask]
  | load metadata locations =>
    cases layout with
    | segment =>
      obtain ⟨blocks, located⟩ := aligned
      have tasks := segmentLoadTasks_ne_nil io blocks located
      simp only [submission, HasTask, ne_eq, List.length_eq_zero_iff]
      refine ⟨fun some none => some ?_, tasks⟩
      rw [none]
      rfl
    | file => simp [submission, HasTask]

/-- The submission of a job to a tier of the layout. -/
def Announces (layout : StorageLayout) (job : TierJob) (announced : Submission Task SegmentStorePlan) : Prop :=
  Aligned job ∧ ∃ io, announced = submission layout io job

variable [DecidableEq ι] {config : ι → TierConfig} {db : Database} {segments : ℕ → List UInt8}
  {files : OffloadKey → Option (List UInt8)} {memory : ι → List UInt8} {events : List (ClusterEvent ι)}
  {c d : Cluster ι}

theorem Opens.aligned {process : ι} {metadata : JobMetadata} {event : ClusterEvent ι} {job : TierJob}
    {shared : SharedStore ι} {opening : PoolEvent Task SegmentStorePlan}
    (opens : Opens c process metadata event job shared opening) (matched : Matched event) : Aligned job := by
  cases opens with
  | storeSegments | storeFiles => exact matched
  | loadSegments _ located =>
    refine ⟨matched, ?_⟩
    rw [located, SegmentStore.getLocations_fst, List.length_map]
  | loadFiles => exact ⟨matched, by simp⟩

/-- The pool of a process is given exactly the jobs of its tier, in their order. -/
theorem announced_of_run (run : Run (Steps Cluster.step) (.init config db segments files memory) events c)
    (matched : ∀ event ∈ events, Matched event) (process : ι) :
    List.Forall₂ (Announces (config process).storageLayout) (c.jobs process) (submissions (c.events process)) := by
  induction run with
  | nil => exact .nil
  | @snoc past source final event before moved ih =>
    have known := ih fun event member => matched event (by simp [member])
    rcases step_pool moved process with ⟨_, events, jobs⟩ |
      ⟨operation, _, events, ⟨silent, jobs⟩ | ⟨metadata, job, shared, opens, jobs⟩⟩
    · rwa [events, jobs]
    · rw [events, jobs, submissions_snoc, silent]
      simpa using known
    · rw [events, jobs, submissions_snoc, opens.announces.2, Option.toList_some, config_of_run before]
      refine List.rel_append known (.cons ⟨opens.aligned (matched event (by simp)), _, rfl⟩ .nil)

theorem stop_step_of_ne {event : ClusterEvent ι} {process : ι} (moved : c.step event = some d)
    (other : event ≠ .shutdown process) : (d.pool process).stop = (c.pool process).stop := by
  cases step_moves moved with
  | stored | unlinked | overwritten => rfl
  | @opened acting metadata _ job shared opening pool opens stepped =>
    rcases eq_or_ne process acting with rfl | differ
    · simp only [Function.update_self]
      apply stop_step stepped
      cases opens <;> simp
    · simp [differ]
  | @polled acting _ operation pool made stepped =>
    rcases eq_or_ne process acting with rfl | differ
    · simp only [Function.update_self]
      apply stop_step stepped
      rcases made with ⟨rfl, _⟩ | ⟨_, _, _, rfl⟩
      · exact absurd rfl other
      · simp
    · simp [differ]
  | @worked acting index action outcome worker middle pool found effect stepped =>
    rcases eq_or_ne process acting with rfl | differ
    · simp only [Function.update_self]
      exact stop_step (show Pool.step _ (.worker index action) = some pool from stepped) (by simp)
    · simp [differ]

theorem going_of_events {process : ι}
    (run : Run (Steps Cluster.step) (.init config db segments files memory) events c)
    (going : ClusterEvent.shutdown process ∉ events) : (c.pool process).stop = false := by
  apply run.preserves (fun c => (c.pool process).stop = false) rfl
  intro source event target member before moved
  rw [stop_step_of_ne moved fun shutdown => going (shutdown ▸ member), before]

/-! ## Draining -/

/-- The result of the job has been put on the finished queue once, and is there or has been handed out. -/
def Drained (c : Cluster ι) (process : ι) (reference : ℕ) (job : TierJob) : Prop :=
  ((c.pool process).jobState reference).jobId = job.metadata.jobId ∧
    ∃ success, reports (c.events process) reference = [success] ∧
      ((reference, success) ∈ handedOut (c.events process) ∨ (reference, success) ∈ (c.pool process).finishedQ)

/-- The pool's view of a job of the tier. -/
theorem jobState_of_submitted {process : ι} {reference : ℕ} {job : TierJob}
    (run : Run (Steps Cluster.step) (.init config db segments files memory) events c)
    (matched : ∀ event ∈ events, Matched event) (submitted : (c.jobs process)[reference]? = some job) :
    reference < (c.pool process).jobs.length ∧
      ((c.pool process).jobState reference).jobId = job.metadata.jobId ∧
      (((c.pool process).jobState reference).nTasks ≠ 0 ↔ HasTask (config process).storageLayout job) := by
  have announced := announced_of_run run matched process
  obtain ⟨inside, at_reference⟩ := List.getElem?_eq_some_iff.mp submitted
  have length := announced.length_eq
  obtain ⟨aligned, io, same⟩ := announced.get (i := reference) inside (length ▸ inside)
  simp only [List.get_eq_getElem, at_reference] at aligned same
  have found : (submissions (c.events process))[reference]? =
      some (submission (config process).storageLayout io job) := by
    rw [List.getElem?_eq_getElem (length ▸ inside), same]
  obtain ⟨jobId, nTasks, _⟩ := jobState_of_run (poolRun run process) found
  refine ⟨?_, jobId.trans ?_, ?_⟩
  · rw [length_jobs_of_run (poolRun run process), ← length]
    exact inside
  · cases job <;> cases (config process).storageLayout <;> rfl
  · rw [nTasks]
    exact nTasks_ne_zero_iff aligned io

/-- Draining: when the queues of a pool are empty and no worker has anything in hand, a job of the tier is on the
finished queue exactly when it was given to the pool with a task, and the pool is idle exactly when every job
was. -/
theorem drained_iff (run : Run (Steps Cluster.step) (.init config db segments files memory) events c)
    (matched : ∀ event ∈ events, Matched event) {process : ι} (going : ClusterEvent.shutdown process ∉ events)
    (quiescent : (c.pool process).Quiescent) :
    (∀ reference job, (c.jobs process)[reference]? = some job →
      (Drained c process reference job ↔ HasTask (config process).storageLayout job)) ∧
    ((c.pool process).idle ↔ ∀ job ∈ c.jobs process, HasTask (config process).storageLayout job) := by
  have seen := poolRun run process
  have going := going_of_events run going
  have announced := announced_of_run run matched process
  have counted : ∀ event ∈ c.events process, Counted event := by
    intro event member announcement submits
    have listed : announcement ∈ submissions (c.events process) := List.mem_filterMap.mpr ⟨event, member, submits⟩
    obtain ⟨reference, inside, rfl⟩ := List.getElem_of_mem listed
    obtain ⟨aligned, io, same⟩ := announced.get (i := reference) (announced.length_eq ▸ inside) inside
    simp only [List.get_eq_getElem] at same
    rw [same]
    exact counted_submission aligned io
  have queued := quiescent_iff.mp quiescent
  -- a job with tasks has nothing left to wait for, and one without tasks is never completed
  have reported : ∀ reference < (c.pool process).jobs.length, reports (c.events process) reference ≠ [] ↔
      ((c.pool process).jobState reference).nTasks ≠ 0 := by
    intro reference opened
    constructor
    · intro wasReported
      rcases tallied_of_run seen reference with ⟨_, _, notReported⟩ | ⟨_, some, _⟩
      · exact absurd notReported wasReported
      · exact some
    · intro some notReported
      rcases (accounted_of_run seen counted going some).pending notReported with waiting | ⟨worker, member, held⟩
      · have := (queued reference).1
        omega
      · simp [(queued reference).2 worker member] at held
  have drained : ∀ reference job, (c.jobs process)[reference]? = some job →
      (Drained c process reference job ↔ HasTask (config process).storageLayout job) := by
    intro reference job submitted
    obtain ⟨opened, jobId, tasks⟩ := jobState_of_submitted run matched submitted
    rw [← tasks, ← reported reference opened]
    constructor
    · rintro ⟨_, success, wasReported, _⟩
      simp [wasReported]
    · intro wasReported
      have some := (reported reference opened).mp wasReported
      obtain ⟨success, only, _⟩ := (accounted_of_run seen counted going some).appended.resolve_left wasReported
      have member : (reference, success) ∈ appended (c.events process) := mem_reports_iff.mp (by simp [only])
      rw [← finished_of_run seen] at member
      exact ⟨jobId, success, only, List.mem_append.mp member⟩
  refine ⟨drained, ?_⟩
  have jobs : (c.pool process).jobs.length = (c.jobs process).length := by
    rw [length_jobs_of_run seen, announced.length_eq]
  rw [Pool.idle, inflight_of_run seen going, Nat.cast_eq_zero, Finset.card_eq_zero, Finset.eq_empty_iff_forall_notMem]
  constructor
  · intro all job member
    obtain ⟨reference, inside, rfl⟩ := List.getElem_of_mem member
    obtain ⟨opened, _, tasks⟩ := jobState_of_submitted run matched (List.getElem?_eq_getElem inside)
    refine tasks.mp ((reported reference opened).mp fun notReported => ?_)
    exact all reference (mem_unreported.mpr ⟨opened, notReported⟩)
  · intro all reference open_job
    obtain ⟨opened, notReported⟩ := mem_unreported.mp open_job
    have inside : reference < (c.jobs process).length := jobs ▸ opened
    obtain ⟨_, _, tasks⟩ := jobState_of_submitted run matched (List.getElem?_eq_getElem inside)
    exact (reported reference opened).mpr (tasks.mpr (all _ (List.getElem_mem inside))) notReported

instance (p : Pool Task SegmentStorePlan) : Decidable p.Quiescent := inferInstanceAs (Decidable (_ ∧ _ ∧ _))

/-- Two processes with one worker each, the first one in the segment layout. -/
def pairConfig (second : Bool) : TierConfig where
  storageLayout := if second then .file else .segment
  segments := ⟨5, 15, 6, by decide, by decide, by decide, by decide⟩
  maxBuffers := 7
  maxBuffers_pos := by decide
  nReadThreads := 1
  nWriteThreads := 0

def pairStart : Cluster Bool := .init pairConfig .empty (fun _ => []) (fun _ => none) fun _ => [1, 2, 3, 4, 5]

/-- A job without keys. -/
def keyless : JobMetadata := ⟨7, [], []⟩

/-- A job without keys in the three ways of submitting it that build no task. -/
def tasklessTape : List (ClusterEvent Bool) :=
  [.submitLoad false keyless, .submitLoad true keyless, .submitStore true keyless]

/-- Jobs without keys stay in flight, although nothing is queued and no worker has anything in hand. -/
theorem taskless_not_drained : ∃ c : Cluster Bool, Run (Steps Cluster.step) pairStart tasklessTape c ∧
    (∀ event ∈ tasklessTape, Matched event) ∧ ∀ process, ClusterEvent.shutdown process ∉ tasklessTape ∧
      (c.pool process).Quiescent ∧ c.jobs process ≠ [] ∧ ¬(c.pool process).idle ∧
      ∀ reference job, (c.jobs process)[reference]? = some job → ¬Drained c process reference job := by
  have executed : (replay Cluster.step pairStart tasklessTape).map (fun c => decide (∀ process,
      (c.pool process).Quiescent ∧ c.jobs process ≠ [] ∧ (c.pool process).inflightJobs ≠ 0 ∧
        ∀ reference < (c.jobs process).length, reports (c.events process) reference = [])) = some true := by decide
  obtain ⟨c, replayed, facts⟩ := Option.map_eq_some_iff.mp executed
  refine ⟨c, Run.of_replay replayed, by simp [tasklessTape, Matched, keyless], fun process => ?_⟩
  obtain ⟨quiescent, some, inflight, unreported⟩ := of_decide_eq_true facts process
  refine ⟨by simp [tasklessTape], quiescent, some, inflight, ?_⟩
  rintro reference job submitted ⟨_, success, reported, _⟩
  rw [unreported reference (List.getElem?_eq_some_iff.mp submitted).1] at reported
  cases reported

/-- A store in the segment layout without keys, and a load of a key that is not stored anywhere. -/
def placeholderTape : List (ClusterEvent Bool) :=
  [.submitStore false keyless, .worker false 0 .take .completed, .worker false 0 (.taskEnded 0 true) .completed,
    .worker false 0 (.taskDone 0 true) .completed, .worker false 0 (.called 0 true) .completed,
    .worker false 0 (.returned 0 true) .completed, .worker false 0 (.reported 0 true) .completed,
    .submitLoad false ⟨8, [[1]], [0]⟩, .worker false 0 .take .completed, .worker false 0 .raise (.failed 0),
    .worker false 0 (.taskEnded 1 false) .completed, .worker false 0 (.taskDone 1 false) .completed,
    .worker false 0 (.reported 1 false) .completed]

theorem drained_iff_placeholder : ∃ c : Cluster Bool, Run (Steps Cluster.step) pairStart placeholderTape c ∧
    c.jobs false = [.store keyless ⟨[]⟩ [1, 2, 3, 4, 5], .load ⟨8, [[1]], [0]⟩ [none]] ∧
    Drained c false 0 (.store keyless ⟨[]⟩ [1, 2, 3, 4, 5]) ∧ Drained c false 1 (.load ⟨8, [[1]], [0]⟩ [none]) ∧
    (c.pool false).idle := by
  have executed : (replay Cluster.step pairStart placeholderTape).map
      (fun c => (decide (c.pool false).Quiescent, c.jobs false)) =
        some (true, [.store keyless ⟨[]⟩ [1, 2, 3, 4, 5], .load ⟨8, [[1]], [0]⟩ [none]]) := by decide +kernel
  obtain ⟨c, replayed, facts⟩ := Option.map_eq_some_iff.mp executed
  obtain ⟨quiescent, jobs⟩ := Prod.mk.inj facts
  have run := Run.of_replay replayed
  obtain ⟨drained, idle⟩ := drained_iff run (by simp [placeholderTape, Matched, keyless]) (by simp [placeholderTape])
    (of_decide_eq_true quiescent)
  refine ⟨c, run, jobs, ?_, ?_, ?_⟩
  · exact (drained 0 _ (by rw [jobs]; rfl)).mpr (.inl rfl)
  · exact (drained 1 _ (by rw [jobs]; rfl)).mpr (by simp [HasTask])
  · exact idle.mpr (by simp [jobs, HasTask, pairConfig])

end KVTiering.Soundness.Cluster
