import KVTiering.Model.SharedStore
import KVTiering.Model.ThreadPool
import KVTiering.Model.Transfer
import Mathlib.Data.UInt

/-! # The tiers of several processes on one root directory

Each process has a tier, its thread pool and its primary tier; all of them share the tables, the segment files
and the block files. `submit_store` and `submit_load` turn a job into tasks. A worker runs one system call of
its task at a time, and any call may fail after it has transferred a part. Transactions and vectored calls are
atomic. A failed task runs its handler before it ends, and the callback of a store job is one transaction.

The jobs submitted and the events of each pool are history: no operation reads them.
-/

namespace KVTiering.Model

inductive StorageLayout where
  | segment
  | file
deriving DecidableEq, Repr

/-- A job of the framework, as far as the tier reads it. -/
structure JobMetadata where
  jobId : ℕ
  keys : List OffloadKey
  blockIds : List ℕ
deriving DecidableEq, Repr

/-- What the constructor of a tier settles. The block size is that of the primary tier; the other arguments of
the segment store mean nothing in the file layout. -/
structure TierConfig where
  storageLayout : StorageLayout
  segments : SegmentConfig
  /-- the bound on the buffers of one vectored call -/
  maxBuffers : ℕ
  maxBuffers_pos : 0 < maxBuffers
  nReadThreads : ℕ
  nWriteThreads : ℕ

/-! ## The tasks of a job -/

/-- The tasks of a store in the segment layout, one for each segment written; a plan without entries has a task
that does nothing. -/
def segmentStoreTasks (io : IoConfig) (plan : SegmentStorePlan) : List Task :=
  let tasks := (groupWrites plan.entries).map (writeEntries io)
  if tasks = [] then [.nothing] else tasks

/-- The tasks of a store in the file layout. -/
def fileStoreTasks (io : IoConfig) (keys : List OffloadKey) (blockIds : List ℕ) : List Task :=
  (keys.zip blockIds).map fun item => storeBlock io item.1 item.2

/-- `segment_entries`: the keys with a location, by its segment. -/
def segmentEntries (keys : List OffloadKey) (blockIds : List ℕ) (locations : List (Option SegmentLocation)) :
    Dict ℕ (List (OffloadKey × ℕ × SegmentLocation)) :=
  Dict.groupOn (fun entry => entry.2.2.segmentId) ((keys.zip (blockIds.zip locations)).filterMap fun item =>
    item.2.2.map fun location => (item.1, item.2.1, location))

/-- The tasks of a load in the segment layout: the block files of the keys without a location, and one task for
each segment read. -/
def segmentLoadTasks (io : IoConfig) (keys : List OffloadKey) (blockIds : List ℕ)
    (locations : List (Option SegmentLocation)) : List Task :=
  ((keys.zip (blockIds.zip locations)).filter fun item => item.2.2.isNone).map (fun item =>
      loadBlock io item.1 item.2.1) ++
    (segmentEntries keys blockIds locations).values.map fun chunk =>
      loadMany io (chunk.map fun entry => entry.1) (chunk.map fun entry => entry.2.1)
        (chunk.map fun entry => some entry.2.2)

/-- The tasks of a load in the file layout. -/
def fileLoadTasks (io : IoConfig) (keys : List OffloadKey) (blockIds : List ℕ) : List Task :=
  (keys.zip blockIds).map fun item => loadBlock io item.1 item.2

/-! ## The state -/

/-- A job that was submitted: what `prepare_store` planned for it, with the primary tier at that time, or the
locations found for its keys. In the file layout nothing is planned and no location is looked for. -/
inductive TierJob where
  | store (metadata : JobMetadata) (plan : SegmentStorePlan) (source : List UInt8)
  | load (metadata : JobMetadata) (locations : List (Option SegmentLocation))
deriving DecidableEq, Repr

def TierJob.metadata : TierJob → JobMetadata
  | .store metadata _ _ => metadata
  | .load metadata _ => metadata

structure Cluster (ι : Type) where
  config : ι → TierConfig
  shared : SharedStore ι
  /-- the bytes of the segment files; a file that does not exist has none -/
  segments : ℕ → List UInt8
  /-- the block files -/
  files : OffloadKey → Option (List UInt8)
  pool : ι → Pool Task SegmentStorePlan
  /-- the flat byte view of each primary tier -/
  memory : ι → List UInt8
  /-- the jobs submitted to each tier, by reference -/
  jobs : ι → List TierJob
  /-- the events of each pool -/
  events : ι → List (PoolEvent Task SegmentStorePlan)

/-- How a step of a worker goes. -/
inductive StepOutcome where
  | completed
  /-- an error is raised, by a call that has transferred some bytes -/
  | failed (transferred : ℕ)
  /-- an error is raised after the commit, when some of the rows have been read back -/
  | committed (read : List OffloadKey)

inductive ClusterEvent (ι : Type) where
  | submitStore (process : ι) (metadata : JobMetadata)
  | submitLoad (process : ι) (metadata : JobMetadata)
  /-- the locations of some keys are looked up, by `batch_lookup` or by a `submit_store` that then raises -/
  | lookUp (process : ι) (keys : List OffloadKey)
  /-- `delete` deletes rows -/
  | delete (process : ι) (keys : List OffloadKey)
  /-- `delete` unlinks a file -/
  | unlink (process : ι) (key : OffloadKey)
  | shutdown (process : ι)
  | getFinished (process : ι) (job : ℕ) (success : Bool)
  /-- someone else writes to the primary tier -/
  | primaryWrite (process : ι) (start : ℕ) (data : List UInt8)
  | worker (process : ι) (index : ℕ) (action : WorkerAction Task) (outcome : StepOutcome)

/-- The bytes of some slices of a memory, one after another. -/
def gather (memory : List UInt8) (buffers : List Slice) : List UInt8 :=
  buffers.flatMap fun slice => readAt memory slice.start slice.length

/-- Data read into some slices of a memory, as far as it goes. -/
def scatter : List UInt8 → List Slice → List UInt8 → List UInt8
  | memory, [], _ => memory
  | memory, slice :: rest, data =>
    scatter (writeAt memory slice.start (data.take slice.length)) rest (data.drop slice.length)

/-- The bytes that some slices hold. -/
def totalLength (buffers : List Slice) : ℕ := (buffers.map Slice.length).sum

namespace Cluster

variable {ι : Type} [DecidableEq ι]

def init (config : ι → TierConfig) (db : Database) (segments : ℕ → List UInt8)
    (files : OffloadKey → Option (List UInt8)) (memory : ι → List UInt8) : Cluster ι where
  config := config
  shared := .init db fun process => (config process).segments
  segments := segments
  files := files
  pool process := .init (config process).nReadThreads (config process).nWriteThreads
  memory := memory
  jobs _ := []
  events _ := []

/-- What the tasks of a process read besides their arguments. -/
def io (c : Cluster ι) (process : ι) : IoConfig where
  blockSize := (c.config process).segments.blockSize
  viewSize := (c.memory process).length
  maxBuffers := (c.config process).maxBuffers

/-- An event of one of the pools. -/
def poolStep (c : Cluster ι) (process : ι) (event : PoolEvent Task SegmentStorePlan) : Option (Cluster ι) :=
  ((c.pool process).step event).map fun pool => { c with
    pool := Function.update c.pool process pool
    events := Function.update c.events process (c.events process ++ [event]) }

/-- An operation of the segment store of a process, which the file layout has not. -/
def storeStep (c : Cluster ι) (process : ι) (event : StoreEvent ι) : Option (Cluster ι) :=
  if (c.config process).storageLayout = .segment then
    (c.shared.step event).map fun shared => { c with shared := shared }
  else none

/-- The job gets the next reference of its pool. -/
def record (c : Cluster ι) (process : ι) (job : TierJob) : Cluster ι :=
  { c with jobs := Function.update c.jobs process (c.jobs process ++ [job]) }

/-- `submit_store`, unless it raises. -/
def submitStore (c : Cluster ι) (process : ι) (metadata : JobMetadata) : Option (Cluster ι) :=
  match (c.config process).storageLayout with
  | .segment =>
    match (c.shared.store process).prepareStore c.shared.db metadata.keys metadata.blockIds with
    | .error _ => none
    | .ok (plan, db, store) =>
      let tasks := segmentStoreTasks (c.io process) plan
      poolStep ({ c with shared := c.shared.prepared process plan db store }.record process
          (.store metadata plan (c.memory process))) process
        (.enqueueStore metadata.jobId tasks.length tasks (some plan))
  | .file =>
    poolStep (c.record process (.store metadata ⟨[]⟩ (c.memory process))) process
      (.enqueueStore metadata.jobId metadata.keys.length
        (fileStoreTasks (c.io process) metadata.keys metadata.blockIds) none)

/-- `submit_load`. -/
def submitLoad (c : Cluster ι) (process : ι) (metadata : JobMetadata) : Option (Cluster ι) :=
  match (c.config process).storageLayout with
  | .segment =>
    let locations := ((c.shared.store process).getLocations c.shared.db metadata.keys).1
    let tasks := segmentLoadTasks (c.io process) metadata.keys metadata.blockIds locations
    (c.storeStep process (.getLocations process metadata.keys)).bind fun c =>
      poolStep (c.record process (.load metadata locations)) process
        (.enqueueLoad metadata.jobId tasks.length tasks)
  | .file =>
    poolStep (c.record process (.load metadata (metadata.keys.map fun _ => none))) process
      (.enqueueLoad metadata.jobId metadata.keys.length
        (fileLoadTasks (c.io process) metadata.keys metadata.blockIds))

/-! ## What the workers do -/

def setSegment (c : Cluster ι) (segmentId : ℕ) (bytes : List UInt8) : Cluster ι :=
  { c with segments := Function.update c.segments segmentId bytes }

def setMemory (c : Cluster ι) (process : ι) (bytes : List UInt8) : Cluster ι :=
  { c with memory := Function.update c.memory process bytes }

def setFile (c : Cluster ι) (key : OffloadKey) (bytes : Option (List UInt8)) : Cluster ι :=
  { c with files := Function.update c.files key bytes }

/-- A system call that does not raise. -/
def perform (c : Cluster ι) (process : ι) : IoCall → Option (Cluster ι)
  | .pwritev segmentId offset buffers =>
    some (c.setSegment segmentId (writeAt (c.segments segmentId) offset (gather (c.memory process) buffers)))
  | .preadv segmentId offset buffers =>
    let data := readAt (c.segments segmentId) offset (totalLength buffers)
    if data.length = totalLength buffers then
      some (c.setMemory process (scatter (c.memory process) buffers data))
    else none
  | .raise _ => none
  | .pathExists _ => some c
  | .replaceFile key source => some (c.setFile key (some (gather (c.memory process) [source])))
  | .readv key destination blockSize =>
    match c.files key with
    | none => none
    | some bytes =>
      if (bytes.take destination.length).length < blockSize then none
      else some (c.setMemory process (scatter (c.memory process) [destination] bytes))

/-- A system call that raises, after it has transferred some bytes. -/
def fail (c : Cluster ι) (process : ι) (transferred : ℕ) : IoCall → Cluster ι
  | .pwritev segmentId offset buffers =>
    c.setSegment segmentId
      (writeAt (c.segments segmentId) offset ((gather (c.memory process) buffers).take transferred))
  | .preadv segmentId offset buffers =>
    let data := readAt (c.segments segmentId) offset (totalLength buffers)
    c.setMemory process (scatter (c.memory process) buffers (data.take transferred))
  | .readv key destination _ =>
    match c.files key with
    | none => c
    | some bytes => c.setMemory process (scatter (c.memory process) [destination] (bytes.take transferred))
  | _ => c

/-- What is left of a task after a call: nothing, if the block file of a store is already there. -/
def rest (c : Cluster ι) (calls : List IoCall) : IoCall → List IoCall
  | .pathExists key => if (c.files key).isSome then [] else calls
  | _ => calls

/-- The handler of a failed task. -/
def handle (c : Cluster ι) (process : ι) : Handler → Option (Cluster ι)
  | .reraise => some c
  | .delete keys => c.storeStep process (.delete process keys)
  | .remove key => some (c.setFile key none)

/-- `complete_store`, the callback of a store job, which returns or raises. -/
def complete (c : Cluster ι) (process : ι) (plan : SegmentStorePlan) (success : Bool) :
    StepOutcome → Bool → Option (Cluster ι)
  | .completed, true => c.storeStep process (.completeStore process plan success)
  | .failed _, false => some c
  | .committed read, false =>
    if success = true ∧ plan.entries ≠ [] then c.storeStep process (.completeRaised process plan read) else none
  | _, _ => none

/-- What a step of a worker does outside of its pool. -/
def effect (c : Cluster ι) (process : ι) (outcome : StepOutcome) :
    WorkerState Task → WorkerAction Task → Option (Cluster ι)
  | .running task _, .work left =>
    match task.calls, outcome with
    | call :: calls, .completed =>
      if left = ⟨c.rest calls call, task.handler⟩ then c.perform process call else none
    | _, _ => none
  | .running task _, .raise =>
    match task.calls, outcome with
    | call :: _, .failed transferred => some (c.fail process transferred call)
    | _, _ => none
  | .running task _, .taskEnded _ _ => if task.calls = [] then some c else none
  | .unwinding task _, .taskEnded _ _ =>
    match outcome with
    | .completed => c.handle process task.handler
    | _ => some c
  | .inCallback job success, .returned _ ok =>
    match ((c.pool process).jobState job).onComplete with
    | none => none
    | some plan => c.complete process plan success outcome ok
  | _, _ => some c

def workerStep (c : Cluster ι) (process : ι) (index : ℕ) (action : WorkerAction Task) (outcome : StepOutcome) :
    Option (Cluster ι) :=
  ((c.pool process).workers[index]?).bind fun worker =>
    (c.effect process outcome worker.state action).bind fun c => c.poolStep process (.worker index action)

def step (c : Cluster ι) : ClusterEvent ι → Option (Cluster ι)
  | .submitStore process metadata => c.submitStore process metadata
  | .submitLoad process metadata => c.submitLoad process metadata
  | .lookUp process keys => c.storeStep process (.getLocations process keys)
  | .delete process keys => c.storeStep process (.delete process keys)
  | .unlink _ key => some (c.setFile key none)
  | .shutdown process => c.poolStep process .shutdown
  | .getFinished process job success => c.poolStep process (.getFinished job success)
  | .primaryWrite process start data =>
    if start + data.length ≤ (c.memory process).length then
      some (c.setMemory process (writeAt (c.memory process) start data))
    else none
  | .worker process index action outcome => c.workerStep process index action outcome

end Cluster

end KVTiering.Model
