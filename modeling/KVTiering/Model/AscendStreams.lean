import KVTiering.Machine.Overtaking
import KVTiering.Machine.Run
import KVTiering.Model.AscendTransfer
import Mathlib.Data.List.TakeWhile

/-! # The streams of an Ascend device

Kernels are launched on the compute stream and the copies of a worker on its own stream. Each stream runs what was
issued to it in the order of issue, and some time later; nothing orders one stream against the other but
`wait_stream`, behind which the copies of a store wait for the kernels launched before. A job is complete when its
event has been passed.

What a kernel does to the memories is a parameter, an action with its footprint, and so is what other parts of the
host write.
-/

namespace KVTiering.Model

/-- A byte of the device or of the host region. -/
inductive MemoryAddress where
  | device (address : ℕ)
  | host (address : ℕ)
deriving DecidableEq, Repr

/-- The byte at an address. -/
def Memories.at (memories : Memories) : MemoryAddress → UInt8
  | .device address => memories.device address
  | .host address => memories.cpu address

def Memories.of (bytes : MemoryAddress → UInt8) : Memories where
  device address := bytes (.device address)
  cpu address := bytes (.host address)

@[simp] theorem Memories.of_at (bytes : MemoryAddress → UInt8) : (Memories.of bytes).at = bytes := by
  funext address
  cases address <;> rfl

/-- The moves of a copy, from its destination to its source. -/
def StreamCopy.moves (copy : StreamCopy) : List (ℕ × ℕ) :=
  ((copyMoves (if copy.store then copy.span.2 else copy.span.1)
    (if copy.store then copy.span.1 else copy.span.2)).toOption).getD []

def StreamCopy.destination (copy : StreamCopy) (address : ℕ) : MemoryAddress :=
  if copy.store then .host address else .device address

def StreamCopy.source (copy : StreamCopy) (address : ℕ) : MemoryAddress :=
  if copy.store then .device address else .host address

/-- The bytes that a copy writes are those of its source. -/
theorem copyCells_local {source other : ℕ → UInt8} {moves : List (ℕ × ℕ)}
    (same : ∀ move ∈ moves, source move.2 = other move.2) (memory memory' : ℕ → UInt8) {address : ℕ}
    (member : address ∈ moves.map Prod.fst) :
    copyCells source moves memory address = copyCells other moves memory' address := by
  induction moves using List.reverseRecOn with
  | nil => simp at member
  | append_singleton before move ih =>
    simp only [copyCells_append, copyCells_cons, copyCells_nil]
    by_cases last : address = move.1
    · rw [last, Function.update_self, Function.update_self, same move (by simp)]
    · rw [Function.update_of_ne last, Function.update_of_ne last]
      exact ih (fun move member => same move (by simp [member])) (by simpa [last] using member)

/-- A copy as an action on the memories. -/
def StreamCopy.action (copy : StreamCopy) : Action MemoryAddress UInt8 where
  reads := {address | ∃ move ∈ copy.moves, address = copy.source move.2}
  writes := {address | ∃ move ∈ copy.moves, address = copy.destination move.1}
  run bytes address :=
    match copy.store, address with
    | true, .host address =>
      copyCells (fun address => bytes (.device address)) copy.moves (fun address => bytes (.host address)) address
    | false, .device address =>
      copyCells (fun address => bytes (.host address)) copy.moves (fun address => bytes (.device address)) address
    | _, address => bytes address
  frame bytes address outside := by
    cases kind : copy.store <;> cases address
    all_goals
      first
        | rfl
        | exact copyCells_frame _ _ fun move member same =>
            outside ⟨move, member, by simp [StreamCopy.destination, kind, same]⟩
  locality bytes other same address member := by
    obtain ⟨move, member, rfl⟩ := member
    cases kind : copy.store
    all_goals
      simp only [StreamCopy.destination, kind, Bool.false_eq_true, if_true, if_false]
      apply copyCells_local _ _ _ (List.mem_map_of_mem member)
      intro move member
      have read := same (copy.source move.2) ⟨move, member, rfl⟩
      simpa [StreamCopy.source, kind] using read

/-- What the streams have still to run, an item for each call that issued it. -/
inductive StreamItem where
  | kernel (action : Action MemoryAddress UInt8)
  /-- the copies issued from here on wait for the kernels before -/
  | waitStream
  | copy (copy : StreamCopy)
  /-- the event of a job -/
  | record (event : ℕ)

def StreamItem.isKernel : StreamItem → Bool
  | .kernel _ => true
  | _ => false

/-- What an item does to the memories. -/
def StreamItem.action : StreamItem → Action MemoryAddress UInt8
  | .kernel launched => launched
  | .copy issued => issued.action
  | _ => .skip

/-- The copy of an item. -/
def StreamItem.copy? : StreamItem → Option StreamCopy
  | .copy issued => some issued
  | _ => none

/-- What `_submit` issues to the stream of the worker. -/
def TransferState.submitted {τ : Type} (state : TransferState τ) (worker : TransferWorker) (jobId : ℤ)
    (gpuSpec : GPULoadStoreSpec) (cpuSpec : CPULoadStoreSpec) (store : Bool) : List StreamItem :=
  if jobId ∈ state.pending then []
  else
    match copyPlan gpuSpec cpuSpec worker.refs worker.factor with
    | .error _ => []
    | .ok plan =>
      match worker.spans plan with
      | .error _ => []
      | .ok spans =>
        let (copies, looped) := issueCopies store [] spans
        (if store then [.waitStream] else []) ++ copies.map .copy ++
          match looped with
          | .error _ => []
          | .ok () => [.record state.accepted.length]

/-- The events that `shutdown` waits for before it cleans the region up; it goes on where waiting raises. -/
def TransferState.shutdownEvents {τ : Type} (state : TransferState τ) : List ℕ :=
  state.inflight.values.map Inflight.event

/-- A worker and both streams; `queue` has what was issued to either of them and has not run yet, in the order of
issue. -/
structure AscendStreams (τ : Type) where
  worker : TransferState τ
  queue : List StreamItem

inductive AscendEvent (τ : Type) where
  /-- a call of the worker -/
  | call (call : TransferCall τ)
  /-- a kernel is launched on the compute stream -/
  | launch (kernel : Action MemoryAddress UInt8)
  /-- some other part of the host writes to its region -/
  | hostWrite (write : Action MemoryAddress UInt8)
  /-- the next kernel runs -/
  | runKernel
  /-- the next item of the copy stream runs -/
  | runTransfer

namespace AscendStreams

variable {τ : Type} [Sub τ]

def init (memories : Memories) : AscendStreams τ := ⟨.init memories, []⟩

/-- What an event issues, in the order of the program. -/
def issues (worker : TransferWorker) (d : AscendStreams τ) : AscendEvent τ → List StreamItem
  | .call (.submitStore jobId srcSpec dstSpec _) => d.worker.submitted worker jobId srcSpec dstSpec true
  | .call (.submitLoad jobId srcSpec dstSpec _) => d.worker.submitted worker jobId dstSpec srcSpec false
  | .launch kernel => [.kernel kernel]
  | .hostWrite write => [.kernel write]
  | _ => []

/-- An action has run on the memories. -/
def apply (state : TransferState τ) (action : Action MemoryAddress UInt8) : TransferState τ :=
  { state with memories := .of (action.run state.memories.at) }

def step (worker : TransferWorker) (d : AscendStreams τ) : AscendEvent τ → Option (AscendStreams τ)
  | .call .streamed => none
  | .call call => some ⟨d.worker.call worker call, d.queue ++ d.issues worker (.call call)⟩
  | .launch kernel => some { d with queue := d.queue ++ [.kernel kernel] }
  | .hostWrite write => some { d with worker := apply d.worker write }
  | .runKernel =>
    match d.queue.takeWhile (fun item => !item.isKernel), d.queue.dropWhile fun item => !item.isKernel with
    | transfers, .kernel kernel :: rest => some ⟨apply d.worker kernel, transfers ++ rest⟩
    | _, _ => none
  | .runTransfer =>
    match d.queue.takeWhile StreamItem.isKernel, d.queue.dropWhile StreamItem.isKernel with
    | [], .waitStream :: rest => some { d with queue := rest }
    | kernels, .copy _ :: rest => some ⟨d.worker.streamed, kernels ++ rest⟩
    | kernels, .record _ :: rest => some { d with queue := kernels ++ rest }
    | _, _ => none

/-- The steps, one constructor for each kind. -/
inductive Moves (worker : TransferWorker) (d : AscendStreams τ) : AscendEvent τ → AscendStreams τ → Prop
  | call {call : TransferCall τ} (made : call ≠ .streamed) :
      Moves worker d (.call call) ⟨d.worker.call worker call, d.queue ++ d.issues worker (.call call)⟩
  | launch {kernel : Action MemoryAddress UInt8} :
      Moves worker d (.launch kernel) { d with queue := d.queue ++ [.kernel kernel] }
  | hostWrite {write : Action MemoryAddress UInt8} :
      Moves worker d (.hostWrite write) { d with worker := apply d.worker write }
  | runKernel {transfers rest : List StreamItem} {kernel : Action MemoryAddress UInt8}
      (queue : d.queue = transfers ++ .kernel kernel :: rest) (first : ∀ item ∈ transfers, item.isKernel = false) :
      Moves worker d .runKernel ⟨apply d.worker kernel, transfers ++ rest⟩
  | waited {rest : List StreamItem} (queue : d.queue = .waitStream :: rest) :
      Moves worker d .runTransfer { d with queue := rest }
  | runCopy {kernels rest : List StreamItem} {copy : StreamCopy} (queue : d.queue = kernels ++ .copy copy :: rest)
      (first : ∀ item ∈ kernels, item.isKernel = true) :
      Moves worker d .runTransfer ⟨d.worker.streamed, kernels ++ rest⟩
  | pass {kernels rest : List StreamItem} {event : ℕ} (queue : d.queue = kernels ++ .record event :: rest)
      (first : ∀ item ∈ kernels, item.isKernel = true) :
      Moves worker d .runTransfer { d with queue := kernels ++ rest }

theorem moves_of_step {worker : TransferWorker} {d next : AscendStreams τ} {event : AscendEvent τ}
    (stepped : d.step worker event = some next) : Moves worker d event next := by
  unfold step at stepped
  split at stepped
  case h_1 => cases stepped
  case h_2 call made =>
    cases stepped
    exact .call made
  case h_3 =>
    cases stepped
    exact .launch
  case h_4 =>
    cases stepped
    exact .hostWrite
  case h_5 =>
    have whole := List.takeWhile_append_dropWhile (p := fun item : StreamItem => !item.isKernel) (l := d.queue)
    have first := fun item => List.mem_takeWhile_imp (p := fun item : StreamItem => !item.isKernel) (l := d.queue)
      (x := item)
    split at stepped
    · next taken dropped =>
      cases stepped
      rw [dropped] at whole
      exact .runKernel whole.symm fun item member => by simpa using first item member
    · cases stepped
  case h_6 =>
    have whole := List.takeWhile_append_dropWhile (p := StreamItem.isKernel) (l := d.queue)
    have first := fun item => List.mem_takeWhile_imp (p := StreamItem.isKernel) (l := d.queue) (x := item)
    split at stepped
    · next taken dropped =>
      cases stepped
      rw [taken, dropped] at whole
      exact .waited whole.symm
    · next dropped =>
      cases stepped
      rw [dropped] at whole
      exact .runCopy whole.symm first
    · next dropped =>
      cases stepped
      rw [dropped] at whole
      exact .pass whole.symm first
    · cases stepped

end AscendStreams

end KVTiering.Model
