import KVTiering.Model.Cluster
import KVTiering.Soundness.PoolAccounting

/-! # The pools of a cluster

Whatever the processes do, each pool sees a run of its own, whose submissions are those of the jobs of its
tier, in their order. The rest of the state is changed outside of the pools, by one operation at a time.
-/

namespace KVTiering.Soundness

open Model ThreadPool

namespace Cluster

variable {ι : Type}

/-- Nothing of the pools and their history has changed. -/
structure OutsidePools (c d : Cluster ι) : Prop where
  config : d.config = c.config
  pool : d.pool = c.pool
  jobs : d.jobs = c.jobs
  events : d.events = c.events

theorem OutsidePools.refl (c : Cluster ι) : OutsidePools c c := ⟨rfl, rfl, rfl, rfl⟩

variable [DecidableEq ι]

theorem storeStep_cases {c d : Cluster ι} {process : ι} {event : StoreEvent ι}
    (stepped : c.storeStep process event = some d) : (c.config process).storageLayout = .segment ∧
      ∃ shared, c.shared.step event = some shared ∧ d = { c with shared := shared } := by
  unfold Cluster.storeStep at stepped
  split at stepped
  · next segment =>
    obtain ⟨shared, moved, rfl⟩ := Option.map_eq_some_iff.mp stepped
    exact ⟨segment, shared, moved, rfl⟩
  · cases stepped

theorem outsidePools_storeStep {c d : Cluster ι} {process : ι} {event : StoreEvent ι}
    (stepped : c.storeStep process event = some d) : OutsidePools c d := by
  obtain ⟨_, shared, _, rfl⟩ := storeStep_cases stepped
  exact ⟨rfl, rfl, rfl, rfl⟩

theorem poolStep_cases {c d : Cluster ι} {process : ι} {event : PoolEvent Task SegmentStorePlan}
    (stepped : c.poolStep process event = some d) : ∃ pool, (c.pool process).step event = some pool ∧
      d = { c with
        pool := Function.update c.pool process pool
        events := Function.update c.events process (c.events process ++ [event]) } := by
  obtain ⟨pool, moved, rfl⟩ := Option.map_eq_some_iff.mp stepped
  exact ⟨pool, moved, rfl⟩

/-- The slices of the primary tier that a call reads into. -/
def destinations : IoCall → List Slice
  | .preadv _ _ buffers => buffers
  | .readv _ destination _ => [destination]
  | _ => []

/-- The call is made, and returns or raises. -/
def Made (c : Cluster ι) (process : ι) (call : IoCall) (d : Cluster ι) : Prop :=
  c.perform process call = some d ∨ ∃ transferred, d = c.fail process transferred call

/-- What a call can leave behind. -/
inductive Transferred (c : Cluster ι) (process : ι) : IoCall → Cluster ι → Prop
  | nothing {call : IoCall} : Transferred c process call c
  | written {segmentId offset : ℕ} {buffers : List Slice} {transferred : ℕ} :
      Transferred c process (.pwritev segmentId offset buffers) (c.setSegment segmentId
        (writeAt (c.segments segmentId) offset ((gather (c.memory process) buffers).take transferred)))
  | read {call : IoCall} {data : List UInt8} :
      Transferred c process call (c.setMemory process (scatter (c.memory process) (destinations call) data))
  | replaced {key : OffloadKey} {source : Slice} {bytes : List UInt8} :
      Transferred c process (.replaceFile key source) (c.setFile key (some bytes))

theorem transferred_of_made {c d : Cluster ι} {process : ι} {call : IoCall} (made : Made c process call d) :
    Transferred c process call d := by
  rcases made with performed | ⟨transferred, rfl⟩
  · cases call with
    | pwritev segmentId offset buffers =>
      cases performed
      have whole := List.take_length (l := gather (c.memory process) buffers)
      rw [← whole]
      exact .written
    | preadv segmentId offset buffers =>
      simp only [Cluster.perform] at performed
      split at performed
      · cases performed
        exact .read
      · cases performed
    | raise => cases performed
    | pathExists =>
      cases performed
      exact .nothing
    | replaceFile =>
      cases performed
      exact .replaced
    | readv key destination blockSize =>
      simp only [Cluster.perform] at performed
      split at performed
      · cases performed
      · split at performed
        · cases performed
        · cases performed
          exact .read
  · cases call with
    | pwritev => exact .written
    | preadv => exact .read
    | readv =>
      simp only [Cluster.fail]
      split
      · exact .nothing
      · exact .read
    | raise | pathExists | replaceFile => exact .nothing

theorem outsidePools_made {c d : Cluster ι} {process : ι} {call : IoCall} (made : Made c process call d) :
    OutsidePools c d := by
  cases transferred_of_made made <;> exact ⟨rfl, rfl, rfl, rfl⟩

theorem outsidePools_handle {c d : Cluster ι} {process : ι} {handler : Handler}
    (handled : c.handle process handler = some d) : OutsidePools c d := by
  cases handler with
  | delete => exact outsidePools_storeStep handled
  | reraise | remove =>
    cases handled
    exact ⟨rfl, rfl, rfl, rfl⟩

/-- What a worker's step does outside of its pool, one constructor for each thing it can do. -/
inductive Effect (c : Cluster ι) (process : ι) :
    WorkerState Task → WorkerAction Task → Cluster ι → Prop
  | performed {task : Task} {job : ℕ} {call : IoCall} {calls : List IoCall} {d : Cluster ι}
      (next : task.calls = call :: calls) (performed : c.perform process call = some d) :
      Effect c process (.running task job) (.work ⟨c.rest calls call, task.handler⟩) d
  | failed {task : Task} {job transferred : ℕ} {call : IoCall} {calls : List IoCall}
      (next : task.calls = call :: calls) :
      Effect c process (.running task job) .raise (c.fail process transferred call)
  | ended {task : Task} {job reference : ℕ} {success : Bool} (nothingLeft : task.calls = []) :
      Effect c process (.running task job) (.taskEnded reference success) c
  | handled {task : Task} {job reference : ℕ} {success : Bool} {d : Cluster ι}
      (handled : c.handle process task.handler = some d) :
      Effect c process (.unwinding task job) (.taskEnded reference success) d
  | unhandled {task : Task} {job reference : ℕ} {success : Bool} :
      Effect c process (.unwinding task job) (.taskEnded reference success) c
  | completed {job reference : ℕ} {success : Bool} {plan : SegmentStorePlan} {d : Cluster ι}
      (callback : ((c.pool process).jobState job).onComplete = some plan)
      (completed : c.storeStep process (.completeStore process plan success) = some d) :
      Effect c process (.inCallback job success) (.returned reference true) d
  | rolledBack {job reference : ℕ} {success : Bool} :
      Effect c process (.inCallback job success) (.returned reference false) c
  | committed {job reference : ℕ} {plan : SegmentStorePlan} {read : List OffloadKey} {d : Cluster ι}
      (callback : ((c.pool process).jobState job).onComplete = some plan)
      (committed : c.storeStep process (.completeRaised process plan read) = some d) :
      Effect c process (.inCallback job true) (.returned reference false) d
  | none {source : WorkerState Task} {action : WorkerAction Task}
      (within : match source, action with
        | .running _ _, .work _ | .running _ _, .raise | .running _ _, .taskEnded _ _ => False
        | .unwinding _ _, .taskEnded _ _ | .inCallback _ _, .returned _ _ => False
        | _, _ => True) : Effect c process source action c

theorem effect_cases {c d : Cluster ι} {process : ι} {outcome : StepOutcome} {source : WorkerState Task}
    {action : WorkerAction Task} (effect : c.effect process outcome source action = some d) :
    Effect c process source action d := by
  unfold Cluster.effect at effect
  split at effect
  case h_1 =>
    split at effect
    · next next =>
      split at effect
      · next same =>
        subst same
        exact .performed next effect
      · cases effect
    · cases effect
  case h_2 =>
    split at effect
    · next next =>
      cases effect
      exact .failed next
    · cases effect
  case h_3 =>
    split at effect
    · next nothingLeft =>
      cases effect
      exact .ended nothingLeft
    · cases effect
  case h_4 =>
    split at effect
    · exact .handled effect
    · cases effect
      exact .unhandled
  case h_5 job success reference ok =>
    split at effect
    · cases effect
    · next plan callback =>
      unfold Cluster.complete at effect
      split at effect
      · exact .completed callback effect
      · cases effect
        exact .rolledBack
      · split at effect
        · next indexed =>
          obtain ⟨rfl, _⟩ := indexed
          exact .committed callback effect
        · cases effect
      · cases effect
  case h_6 notWork notRaise notEnded notHandled notReturned =>
    cases effect
    refine .none ?_
    split
    · exact notWork _ _ _ rfl rfl
    · exact notRaise _ _ rfl rfl
    · exact notEnded _ _ _ _ rfl rfl
    · exact notHandled _ _ _ _ rfl rfl
    · exact notReturned _ _ _ _ rfl rfl
    · trivial

theorem Effect.outsidePools {c d : Cluster ι} {process : ι} {source : WorkerState Task}
    {action : WorkerAction Task} (effect : Effect c process source action d) : OutsidePools c d := by
  cases effect with
  | performed _ performed => exact outsidePools_made (.inl performed)
  | failed => exact outsidePools_made (.inr ⟨_, rfl⟩)
  | handled handled => exact outsidePools_handle handled
  | completed _ stepped => exact outsidePools_storeStep stepped
  | committed _ stepped => exact outsidePools_storeStep stepped
  | ended | unhandled | rolledBack | none => exact .refl c

/-- A step of a worker has its effect outside of the pool, and then is a step of the pool. -/
theorem workerStep_cases {c d : Cluster ι} {process : ι} {index : ℕ} {action : WorkerAction Task}
    {outcome : StepOutcome} (stepped : c.workerStep process index action outcome = some d) :
    ∃ worker middle pool, (c.pool process).workers[index]? = some worker ∧
      Effect c process worker.state action middle ∧
      (c.pool process).workerStep index action = some pool ∧
      d = { middle with
        pool := Function.update c.pool process pool
        events := Function.update c.events process (c.events process ++ [.worker index action]) } := by
  obtain ⟨worker, found, rest⟩ := Option.bind_eq_some_iff.mp stepped
  obtain ⟨middle, effect, polled⟩ := Option.bind_eq_some_iff.mp rest
  obtain ⟨pool, moved, rfl⟩ := poolStep_cases polled
  have effect := effect_cases effect
  have outside := effect.outsidePools
  rw [outside.pool] at moved ⊢
  rw [outside.events]
  exact ⟨worker, middle, pool, found, effect, moved, rfl⟩

/-! ## The steps of a cluster -/

/-- What `submit_store` and `submit_load` hand to the pool for a job. -/
def submission (layout : StorageLayout) (io : IoConfig) : TierJob → Submission Task SegmentStorePlan
  | .store metadata plan _ =>
    match layout with
    | .segment => ⟨metadata.jobId, (segmentStoreTasks io plan).length, segmentStoreTasks io plan, some plan⟩
    | .file => ⟨metadata.jobId, metadata.keys.length, fileStoreTasks io metadata.keys metadata.blockIds, none⟩
  | .load metadata locations =>
    match layout with
    | .segment => ⟨metadata.jobId, (segmentLoadTasks io metadata.keys metadata.blockIds locations).length,
        segmentLoadTasks io metadata.keys metadata.blockIds locations, none⟩
    | .file => ⟨metadata.jobId, metadata.keys.length, fileLoadTasks io metadata.keys metadata.blockIds, none⟩

/-- The job, and its opening in the tables and in the pool, are those of the metadata submitted. -/
inductive Opens (c : Cluster ι) (process : ι) (metadata : JobMetadata) : ClusterEvent ι → TierJob → SharedStore ι →
    PoolEvent Task SegmentStorePlan → Prop
  | storeSegments {plan : SegmentStorePlan} {db : Database} {store : SegmentStore}
      (layout : (c.config process).storageLayout = .segment)
      (prepared : (c.shared.store process).prepareStore c.shared.db metadata.keys metadata.blockIds =
        .ok (plan, db, store)) :
      Opens c process metadata (.submitStore process metadata) (.store metadata plan (c.memory process))
        (c.shared.prepared process plan db store)
        (.enqueueStore metadata.jobId (segmentStoreTasks (c.io process) plan).length
          (segmentStoreTasks (c.io process) plan) (some plan))
  | storeFiles (layout : (c.config process).storageLayout = .file) :
      Opens c process metadata (.submitStore process metadata) (.store metadata ⟨[]⟩ (c.memory process)) c.shared
        (.enqueueStore metadata.jobId metadata.keys.length
          (fileStoreTasks (c.io process) metadata.keys metadata.blockIds) none)
  | loadSegments {locations : List (Option SegmentLocation)} {shared : SharedStore ι}
      (layout : (c.config process).storageLayout = .segment)
      (located : locations = ((c.shared.store process).getLocations c.shared.db metadata.keys).1)
      (moved : c.shared.step (.getLocations process metadata.keys) = some shared) :
      Opens c process metadata (.submitLoad process metadata) (.load metadata locations) shared
        (.enqueueLoad metadata.jobId
          (segmentLoadTasks (c.io process) metadata.keys metadata.blockIds locations).length
          (segmentLoadTasks (c.io process) metadata.keys metadata.blockIds locations))
  | loadFiles (layout : (c.config process).storageLayout = .file) :
      Opens c process metadata (.submitLoad process metadata)
        (.load metadata (metadata.keys.map fun _ => none)) c.shared
        (.enqueueLoad metadata.jobId metadata.keys.length
          (fileLoadTasks (c.io process) metadata.keys metadata.blockIds))

theorem Opens.announces {c : Cluster ι} {process : ι} {metadata : JobMetadata} {event : ClusterEvent ι}
    {job : TierJob} {shared : SharedStore ι} {opening : PoolEvent Task SegmentStorePlan}
    (opens : Opens c process metadata event job shared opening) : job.metadata = metadata ∧
      submission? opening = some (submission (c.config process).storageLayout (c.io process) job) := by
  cases opens with
  | storeSegments layout | storeFiles layout | loadSegments layout | loadFiles layout =>
    simp [submission, submission?, layout, TierJob.metadata]

/-- What a step can do. -/
inductive Moves (c : Cluster ι) : ClusterEvent ι → Cluster ι → Prop
  | opened {process : ι} {metadata : JobMetadata} {event : ClusterEvent ι} {job : TierJob}
      {shared : SharedStore ι} {opening : PoolEvent Task SegmentStorePlan} {pool : Pool Task SegmentStorePlan}
      (opens : Opens c process metadata event job shared opening)
      (moved : (c.pool process).step opening = some pool) :
      Moves c event { c with
        shared := shared
        jobs := Function.update c.jobs process (c.jobs process ++ [job])
        pool := Function.update c.pool process pool
        events := Function.update c.events process (c.events process ++ [opening]) }
  | stored {event : ClusterEvent ι} {operation : StoreEvent ι} {shared : SharedStore ι}
      (made : (∃ process keys, event = .lookUp process keys ∧ operation = .getLocations process keys) ∨
        ∃ process keys, event = .delete process keys ∧ operation = .delete process keys)
      (moved : c.shared.step operation = some shared) : Moves c event { c with shared := shared }
  | unlinked {process : ι} {key : OffloadKey} : Moves c (.unlink process key) (c.setFile key none)
  | polled {process : ι} {event : ClusterEvent ι} {operation : PoolEvent Task SegmentStorePlan}
      {pool : Pool Task SegmentStorePlan}
      (made : event = .shutdown process ∧ operation = .shutdown ∨
        ∃ job success, event = .getFinished process job success ∧ operation = .getFinished job success)
      (moved : (c.pool process).step operation = some pool) :
      Moves c event { c with
        pool := Function.update c.pool process pool
        events := Function.update c.events process (c.events process ++ [operation]) }
  | overwritten {process : ι} {start : ℕ} {data : List UInt8}
      (inside : start + data.length ≤ (c.memory process).length) :
      Moves c (.primaryWrite process start data)
        (c.setMemory process (writeAt (c.memory process) start data))
  | worked {process : ι} {index : ℕ} {action : WorkerAction Task} {outcome : StepOutcome}
      {worker : Worker Task} {middle : Cluster ι} {pool : Pool Task SegmentStorePlan}
      (found : (c.pool process).workers[index]? = some worker) (effect : Effect c process worker.state action middle)
      (moved : (c.pool process).workerStep index action = some pool) :
      Moves c (.worker process index action outcome) { middle with
        pool := Function.update c.pool process pool
        events := Function.update c.events process (c.events process ++ [.worker index action]) }

theorem submitStore_moves {c d : Cluster ι} {process : ι} {metadata : JobMetadata}
    (submitted : c.submitStore process metadata = some d) : Moves c (.submitStore process metadata) d := by
  unfold Cluster.submitStore at submitted
  split at submitted
  · next layout =>
    split at submitted
    · cases submitted
    · next plan db store prepared =>
      obtain ⟨pool, moved, rfl⟩ := poolStep_cases submitted
      exact .opened (.storeSegments layout prepared) moved
  · next layout =>
    obtain ⟨pool, moved, rfl⟩ := poolStep_cases submitted
    exact .opened (.storeFiles layout) moved

theorem submitLoad_moves {c d : Cluster ι} {process : ι} {metadata : JobMetadata}
    (submitted : c.submitLoad process metadata = some d) : Moves c (.submitLoad process metadata) d := by
  unfold Cluster.submitLoad at submitted
  split at submitted
  · next layout =>
    obtain ⟨middle, stepped, submitted⟩ := Option.bind_eq_some_iff.mp submitted
    obtain ⟨_, shared, looked, rfl⟩ := storeStep_cases stepped
    obtain ⟨pool, moved, rfl⟩ := poolStep_cases submitted
    exact .opened (.loadSegments layout rfl looked) moved
  · next layout =>
    obtain ⟨pool, moved, rfl⟩ := poolStep_cases submitted
    exact .opened (.loadFiles layout) moved

/-- Every step is one of these. -/
theorem step_moves {c d : Cluster ι} {event : ClusterEvent ι} (moved : c.step event = some d) : Moves c event d := by
  cases event with
  | submitStore => exact submitStore_moves moved
  | submitLoad => exact submitLoad_moves moved
  | lookUp process keys =>
    obtain ⟨_, shared, stepped, rfl⟩ := storeStep_cases moved
    exact .stored (.inl ⟨process, keys, rfl, rfl⟩) stepped
  | delete process keys =>
    obtain ⟨_, shared, stepped, rfl⟩ := storeStep_cases moved
    exact .stored (.inr ⟨process, keys, rfl, rfl⟩) stepped
  | unlink =>
    cases moved
    exact .unlinked
  | shutdown process =>
    obtain ⟨pool, stepped, rfl⟩ := poolStep_cases moved
    exact .polled (.inl ⟨rfl, rfl⟩) stepped
  | getFinished process job success =>
    obtain ⟨pool, stepped, rfl⟩ := poolStep_cases moved
    exact .polled (.inr ⟨job, success, rfl, rfl⟩) stepped
  | primaryWrite process start data =>
    simp only [Cluster.step] at moved
    split at moved
    · next inside =>
      cases moved
      exact .overwritten inside
    · cases moved
  | worker =>
    obtain ⟨worker, middle, pool, found, effect, stepped, rfl⟩ := workerStep_cases moved
    exact .worked found effect stepped

/-- The pool of a process and its jobs: a step submits one job to it, or is one step of it that submits
nothing, or leaves it alone. -/
theorem step_pool {c d : Cluster ι} {event : ClusterEvent ι} (moved : c.step event = some d) (process : ι) :
    (d.pool process = c.pool process ∧ d.events process = c.events process ∧ d.jobs process = c.jobs process) ∨
      ∃ operation, (c.pool process).step operation = some (d.pool process) ∧
        d.events process = c.events process ++ [operation] ∧
        (submission? operation = none ∧ d.jobs process = c.jobs process ∨
          ∃ metadata job shared, Opens c process metadata event job shared operation ∧
            d.jobs process = c.jobs process ++ [job]) := by
  cases step_moves moved with
  | stored | unlinked | overwritten => exact .inl ⟨rfl, rfl, rfl⟩
  | @opened acting metadata _ job shared opening pool opens stepped =>
    by_cases same : process = acting
    · subst same
      exact .inr ⟨opening, by simpa using stepped, by simp, .inr ⟨metadata, job, shared, opens, by simp⟩⟩
    · simp [same]
  | @polled acting _ operation pool made stepped =>
    by_cases same : process = acting
    · subst same
      refine .inr ⟨operation, by simpa using stepped, by simp, .inl ⟨?_, rfl⟩⟩
      rcases made with ⟨_, rfl⟩ | ⟨_, _, _, rfl⟩ <;> rfl
    · simp [same]
  | @worked acting index action outcome worker middle pool found effect stepped =>
    have outside := effect.outsidePools
    by_cases same : process = acting
    · subst same
      exact .inr ⟨.worker index action, by simpa [Pool.step] using stepped, by simp, .inl ⟨rfl, by simp [outside.jobs]⟩⟩
    · simp [same, outside.jobs]

theorem step_config {c d : Cluster ι} {event : ClusterEvent ι} (moved : c.step event = some d) :
    d.config = c.config := by
  cases step_moves moved with
  | worked _ effect => exact effect.outsidePools.config
  | _ => rfl

section Run

variable {config : ι → TierConfig} {db : Database} {segments : ℕ → List UInt8}
  {files : OffloadKey → Option (List UInt8)} {memory : ι → List UInt8} {events : List (ClusterEvent ι)} {c : Cluster ι}

theorem config_of_run (run : Run (Steps Cluster.step) (.init config db segments files memory) events c) :
    c.config = config :=
  run.preserves (fun c => c.config = config) rfl fun _ _ _ _ same moved => (step_config moved).trans same

/-- What the pool of a process sees is a run of it. -/
theorem poolRun (run : Run (Steps Cluster.step) (.init config db segments files memory) events c) (process : ι) :
    Run (Steps Pool.step)
      (.init (config process).nReadThreads (config process).nWriteThreads) (c.events process) (c.pool process) := by
  induction run with
  | nil => exact .nil
  | snoc _ moved ih =>
    rcases step_pool moved process with ⟨pool, events, _⟩ | ⟨operation, stepped, events, _⟩
    · rwa [pool, events]
    · rw [events]
      exact .snoc ih stepped

end Run

end Cluster

end KVTiering.Soundness
