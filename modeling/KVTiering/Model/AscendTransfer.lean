import KVTiering.Model.AscendWorker
import Mathlib.Data.Finset.Basic

/-! # The transfer jobs of an Ascend worker

A worker issues the copies of a job on its stream, records an event behind them, and keeps the job in a
table until the event is found complete, by polling or by waiting. The two worker classes differ in how
they resolve plan entries only. Events are numbered in the order in which they are recorded; the stream
runs the copies in their order, some time after they were issued. What `query` and `synchronize` report,
and the readings of the clock, are parameters of the calls. Diagnostics are off.
-/

namespace KVTiering.Model

/-- `AscendCopyWorker`: one tensor of byte rows for each cache, and the CPU view made for it. -/
structure AscendCopyWorker where
  factor : ℤ
  refs : List (List CanonicalKVCacheRef)
  deviceTensors : List ByteRows
  cpuTensors : List ByteRows
deriving DecidableEq, Repr

/-- One round of the loop over the caches in `__init__`. -/
def addCache {κ ρ : Type} (viewRows : κ → ℕ → Except AscendError ByteRows)
    (createNextView : ρ → ℤ → Except AscendError (ByteRows × ρ)) (factor : ℤ)
    (made : (List ByteRows × List ByteRows) × ρ) (cache : κ × Device × ℕ) :
    Except AscendError ((List ByteRows × List ByteRows) × ρ) := do
  raiseIf (cache.2.1.type ≠ "npu") (.valueError "AscendCopyWorker requires NPU tensors")
  let view ← viewRows cache.1 cache.2.2
  let (cpu, region) ← createNextView made.2 (cache.2.2 * factor)
  pure ((made.1.1 ++ [view], made.1.2 ++ [cpu]), region)

namespace AscendCopyWorker

/-- `AscendCopyWorker.__init__`, for caches given as tensor, device and page size; `viewRows` is
`tensor.view(torch.int8).view(-1, page_size_bytes)`. -/
def init {κ ρ : Type} (viewRows : κ → ℕ → Except AscendError ByteRows)
    (createNextView : ρ → ℤ → Except AscendError (ByteRows × ρ)) (caches : List (κ × Device × ℕ))
    (groupDataRefs : List (List CanonicalKVCacheRef)) (blockSizeFactor : ℤ) (mmapRegion : ρ) :
    Except AscendError (AscendCopyWorker × ρ) := do
  let made ← loop (addCache viewRows createNextView blockSizeFactor) (([], []), mmapRegion) caches
  let _ ← getIndex made.1.1 0
  pure (⟨blockSizeFactor, groupDataRefs, made.1.1, made.1.2⟩, made.2)

/-- One round of the loop of `_spans`. -/
def addEntrySpan (worker : AscendCopyWorker) (spans : List (ByteSpan × ByteSpan)) (entry : PlanEntry) :
    Except AscendError (List (ByteSpan × ByteSpan)) := do
  let device ← getIndex worker.deviceTensors entry.tensorIdx
  let cpu ← getIndex worker.cpuTensors entry.tensorIdx
  let pageSize := device.shape1
  raiseIf (¬((0 ≤ entry.deviceBlock ∧ entry.deviceBlock < device.shape0) ∧
      0 ≤ entry.cpuBlock ∧ entry.cpuBlock < cpu.shape0))
    (.valueError "transfer block outside allocated cache")
  raiseIf (¬(0 < entry.size ∧ entry.size ≤ pageSize)) (.valueError "invalid canonical page size")
  let offset := entry.subBlock * pageSize
  pure (spans ++ [(device.slice entry.deviceBlock.toNat 0 entry.size,
    cpu.slice entry.cpuBlock.toNat offset (offset + entry.size))])

/-- `AscendCopyWorker._spans`. -/
def spans (worker : AscendCopyWorker) (plan : List PlanEntry) :
    Except AscendError (List (ByteSpan × ByteSpan)) :=
  loop worker.addEntrySpan [] plan

end AscendCopyWorker

/-- What the methods shared by both classes read of a worker: its attributes, and its `_spans`. -/
structure TransferWorker where
  factor : ℤ
  refs : List (List CanonicalKVCacheRef)
  spans : List PlanEntry → Except AscendError (List (ByteSpan × ByteSpan))

def AscendCopyWorker.toTransferWorker (worker : AscendCopyWorker) : TransferWorker :=
  ⟨worker.factor, worker.refs, worker.spans⟩

def AscendLayoutWorker.toTransferWorker (worker : AscendLayoutWorker) : TransferWorker :=
  ⟨worker.factor, worker.refs, worker.spans⟩

/-- A copy issued to the stream. -/
structure StreamCopy where
  store : Bool
  span : ByteSpan × ByteSpan
deriving DecidableEq, Repr

/-- An entry of `_inflight`. -/
structure Inflight (τ : Type) where
  event : ℕ
  start : τ
  transferSize : ℕ
  plan : List PlanEntry

/-- `TransferResult`, with the event of the job it is the result of. -/
structure TransferResult (τ : Type) where
  event : ℕ
  jobId : ℤ
  success : Bool
  transferSize : ℕ
  transferTime : τ

/-- What a worker and its device hold. The last three fields are history, which no call reads but for the
number of events recorded so far. -/
structure TransferState (τ : Type) where
  pending : Finset ℤ
  inflight : Dict ℤ (Inflight τ)
  completed : List (TransferResult τ)
  stream : List StreamCopy
  memories : Memories
  /-- the job of each event -/
  accepted : List ℤ
  /-- the results handed out by `get_finished` -/
  returned : List (TransferResult τ)
  /-- the events that a query or a wait has found complete -/
  observed : List ℕ

/-- The calls of the offloading manager, and the progress of the stream. -/
inductive TransferCall (τ : Type) where
  | submitStore (jobId : ℤ) (srcSpec : GPULoadStoreSpec) (dstSpec : CPULoadStoreSpec) (now : τ)
  | submitLoad (jobId : ℤ) (srcSpec : CPULoadStoreSpec) (dstSpec : GPULoadStoreSpec) (now : τ)
  /-- a query raises, or tells whether the event is complete -/
  | getFinished (query : ℕ → Option Bool) (now : ℕ → τ)
  /-- `synchronize` returns, or raises -/
  | wait (jobIds : List ℤ) (synchronize : ℕ → Bool) (now : ℕ → τ)
  | streamed

/-- The copy loop of `_submit`: what has been issued when it ends or raises. -/
def issueCopies (store : Bool) (stream : List StreamCopy) :
    List (ByteSpan × ByteSpan) → List StreamCopy × Except AscendError Unit
  | [] => (stream, .ok ())
  | span :: rest =>
    match copyMoves (if store then span.2 else span.1) (if store then span.1 else span.2) with
    | .error raised => (stream, .error raised)
    | .ok _ => issueCopies store (stream ++ [⟨store, span⟩]) rest

namespace TransferState

variable {τ : Type} (state : TransferState τ)

def init (memories : Memories) : TransferState τ := ⟨∅, .empty, [], [], memories, [], [], []⟩

/-- `_submit`, with the state it leaves behind whether or not it raises. -/
def submit (worker : TransferWorker) (jobId : ℤ) (gpuSpec : GPULoadStoreSpec) (cpuSpec : CPULoadStoreSpec)
    (store : Bool) (now : τ) : TransferState τ × Except AscendError Bool :=
  if jobId ∈ state.pending then (state, .error (.valueError "transfer job ID is already pending"))
  else
    match copyPlan gpuSpec cpuSpec worker.refs worker.factor with
    | .error raised => (state, .error raised)
    | .ok plan =>
      match worker.spans plan with
      | .error raised => (state, .error raised)
      | .ok spans =>
        match issueCopies store state.stream spans with
        | (stream, .error raised) => ({ state with stream := stream }, .error raised)
        | (stream, .ok ()) =>
          let size := (spans.map fun span => span.1.length).sum
          ({ state with
            stream := stream
            inflight := state.inflight.set jobId ⟨state.accepted.length, now, size, plan⟩
            pending := insert jobId state.pending
            accepted := state.accepted ++ [jobId] }, .ok true)

variable [Sub τ]

/-- `_finalize`. -/
def finalize (jobId : ℤ) (success : Bool) (entry : Inflight τ) (now : τ) : TransferResult τ × TransferState τ :=
  (⟨entry.event, jobId, success, entry.transferSize, now - entry.start⟩,
    { state with pending := state.pending.erase jobId })

/-- One round of the loop of `get_finished`. -/
def poll (query : ℕ → Option Bool) (now : ℕ → τ) (done : List (TransferResult τ) × TransferState τ) (jobId : ℤ) :
    List (TransferResult τ) × TransferState τ :=
  match done.2.inflight.get? jobId with
  | none => done
  | some entry =>
    if query entry.event = some false then done
    else
      let success := (query entry.event).isSome
      let state := { done.2 with
        inflight := done.2.inflight.erase jobId
        observed := if success then done.2.observed ++ [entry.event] else done.2.observed }
      let (result, state) := state.finalize jobId success entry (now entry.event)
      (done.1 ++ [result], state)

/-- `get_finished`: the state it leaves; the results it returns are added to `returned`. -/
def getFinished (query : ℕ → Option Bool) (now : ℕ → τ) : TransferState τ :=
  let (finished, state) := state.inflight.keys.foldl (poll query now) ([], state)
  { state with completed := [], returned := state.returned ++ (state.completed ++ finished) }

/-- One round of the loop of `wait`. -/
def waitFor (synchronize : ℕ → Bool) (now : ℕ → τ) (state : TransferState τ) (jobId : ℤ) : TransferState τ :=
  match state.inflight.get? jobId with
  | none => state
  | some entry =>
    let success := synchronize entry.event
    let state := { state with
      inflight := state.inflight.erase jobId
      observed := if success then state.observed ++ [entry.event] else state.observed }
    let (result, state) := state.finalize jobId success entry (now entry.event)
    { state with completed := state.completed ++ [result], pending := state.pending.erase jobId }

def wait (jobIds : List ℤ) (synchronize : ℕ → Bool) (now : ℕ → τ) : TransferState τ :=
  jobIds.foldl (waitFor synchronize now) state

/-- The stream runs the first of the copies issued to it. -/
def streamed : TransferState τ :=
  match state.stream with
  | [] => state
  | copy :: rest =>
    match copySpan copy.store state.memories copy.span with
    | .error _ => state
    | .ok memories => { state with stream := rest, memories := memories }

/-- The state after a call. -/
def call (worker : TransferWorker) (state : TransferState τ) : TransferCall τ → TransferState τ
  | .submitStore jobId srcSpec dstSpec now => (state.submit worker jobId srcSpec dstSpec true now).1
  | .submitLoad jobId srcSpec dstSpec now => (state.submit worker jobId dstSpec srcSpec false now).1
  | .getFinished query now => state.getFinished query now
  | .wait jobIds synchronize now => state.wait jobIds synchronize now
  | .streamed => state.streamed

/-- The state after a sequence of calls. -/
def after (worker : TransferWorker) (calls : List (TransferCall τ)) : TransferState τ :=
  calls.foldl (call worker) state

end TransferState

end KVTiering.Model
