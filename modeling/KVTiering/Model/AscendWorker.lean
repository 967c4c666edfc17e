import KVTiering.Data.Copies
import KVTiering.Model.AscendLayout

/-! # Transfers of the Ascend layout worker

`copyPlan` resolves a transfer into plan entries and `AscendLayoutWorker.spans` resolves these into
pairs of a device and a CPU span; the copies then run in that order. Numbers given by the caller are
integers and are checked before they index anything. The view that the host region hands out for the
next allocation is a parameter.
-/

namespace KVTiering.Model

structure GPULoadStoreSpec where
  blockIds : List ℤ
  groupSizes : List ℤ
  blockIndices : List ℤ
deriving DecidableEq, Repr

structure CPULoadStoreSpec where
  blockIds : List ℤ
deriving DecidableEq, Repr

/-- One tuple of a plan: tensor, device block, CPU block, block within the CPU block, bytes. -/
structure PlanEntry where
  tensorIdx : ℕ
  deviceBlock : ℤ
  cpuBlock : ℤ
  subBlock : ℕ
  size : ℕ
deriving DecidableEq, Repr

/-- The tuples that `zip(xs, ys, zs, strict=True)` yields, and what it raises after the last. -/
def zipStrict {α β γ : Type} : List α → List β → List γ → List (α × β × γ) × Except AscendError Unit
  | x :: xs, y :: ys, z :: zs => ((x, y, z) :: (zipStrict xs ys zs).1, (zipStrict xs ys zs).2)
  | [], [], [] => ([], .ok ())
  | [], _ :: _, _ => ([], .error (.valueError "zip() argument 2 is longer than argument 1"))
  | [], [], _ :: _ => ([], .error (.valueError "zip() argument 3 is longer than arguments 1-2"))
  | _ :: _, [], _ => ([], .error (.valueError "zip() argument 2 is shorter than argument 1"))
  | _ :: _, _ :: _, [] => ([], .error (.valueError "zip() argument 3 is shorter than arguments 1-2"))

/-- The locals of `copy_plan`. -/
structure PlanState where
  gpuOffset : ℕ
  cpuOffset : ℕ
  plan : List PlanEntry

section

variable (gpuSpec : GPULoadStoreSpec) (cpuSpec : CPULoadStoreSpec) (factor : ℕ)

/-- Append the entry of one block of a group, `skip` blocks into the group's first chunk. -/
def addPlanEntry (state : PlanState) (skip : ℕ) (ref : CanonicalKVCacheRef) (plan : List PlanEntry)
    (index : ℕ) : Except AscendError (List PlanEntry) := do
  let cpuIndex := (skip + index) / factor
  let subBlock := (skip + index) % factor
  let deviceBlock ← getIndex gpuSpec.blockIds (state.gpuOffset + index)
  let cpuBlock ← getIndex cpuSpec.blockIds (state.cpuOffset + cpuIndex)
  pure (plan ++ [⟨ref.tensorIdx, deviceBlock, cpuBlock, subBlock, ref.pageSizeBytes⟩])

/-- One round of the loop over the groups; past the first check both numbers are natural. -/
def addPlanGroup (state : PlanState) (item : ℤ × ℤ × List CanonicalKVCacheRef) :
    Except AscendError PlanState := do
  raiseIf (item.1 < 0 ∨ item.2.1 < 0) (.valueError "negative group size or logical block index")
  let size := item.1.toNat
  let logical := item.2.1.toNat
  if size = 0 then
    pure state
  else
    let skip := logical % factor
    let count := (size + skip + factor - 1) / factor
    raiseIf (state.gpuOffset + size > gpuSpec.blockIds.length ∨
        state.cpuOffset + count > cpuSpec.blockIds.length)
      (.valueError "block list is shorter than its group metadata")
    let plan ← loop
      (fun plan ref => loop (addPlanEntry gpuSpec cpuSpec factor state skip ref) plan (List.range size))
      state.plan item.2.2
    pure ⟨state.gpuOffset + size, state.cpuOffset + count, plan⟩

end

/-- `copy_plan`. -/
def copyPlan (gpuSpec : GPULoadStoreSpec) (cpuSpec : CPULoadStoreSpec)
    (refs : List (List CanonicalKVCacheRef)) (factor : ℤ) : Except AscendError (List PlanEntry) := do
  raiseIf (factor < 1 ∨ gpuSpec.groupSizes.length ≠ refs.length)
    (.valueError "invalid block factor or KV group count")
  let zipped := zipStrict gpuSpec.groupSizes gpuSpec.blockIndices refs
  let done ← loop (addPlanGroup gpuSpec cpuSpec factor.toNat) ⟨0, 0, []⟩ zipped.1
  zipped.2
  raiseIf (done.gpuOffset ≠ gpuSpec.blockIds.length ∨ done.cpuOffset ≠ cpuSpec.blockIds.length)
    (.valueError "unused blocks in transfer metadata")
  pure done.plan

/-- The attributes of the worker that its transfers read. -/
structure AscendLayoutWorker where
  factor : ℤ
  refs : List (List CanonicalKVCacheRef)
  layers : List (ℕ × List ByteRows)
  pages : List ℕ
  cpuTensors : List ByteRows
deriving DecidableEq, Repr

/-- Take the next view of the host region, `factor` pages wide. -/
def addCpuTensor {ρ : Type} (createNextView : ρ → ℤ → Except AscendError (ByteRows × ρ)) (factor : ℤ)
    (taken : List ByteRows × ρ) (page : ℕ) : Except AscendError (List ByteRows × ρ) := do
  let (view, region) ← createNextView taken.2 (page * factor)
  pure (taken.1 ++ [view], region)

/-- `AscendLayoutWorker.__init__`, with the region it leaves behind. -/
def AscendLayoutWorker.init {ρ : Type} (createNextView : ρ → ℤ → Except AscendError (ByteRows × ρ))
    (layout : AscendLayout) (blockSizeFactor : ℤ) (mmapRegion : ρ) :
    Except AscendError (AscendLayoutWorker × ρ) := do
  let deviceTensors := layout.layers.flatMap Prod.snd
  raiseIf (deviceTensors = [] ∨ ∃ row ∈ deviceTensors, row.device.type ≠ "npu")
    (.valueError "AscendLayoutWorker requires NPU cache views")
  raiseIf (∃ row ∈ deviceTensors, some row.device ≠ deviceTensors.head?.map ByteRows.device)
    (.valueError "cache views span multiple devices")
  let taken ← loop (addCpuTensor createNextView blockSizeFactor) ([], mmapRegion) layout.pageSizes
  pure (⟨blockSizeFactor, layout.groupDataRefs, layout.layers, layout.pageSizes, taken.1⟩, taken.2)

/-- Append the spans of one row; `done.1` is the offset within the CPU block. -/
def addRowSpan (deviceBlock : ℤ) (cpu : ByteRows) (cpuBlock : ℤ) (done : ℕ × List (ByteSpan × ByteSpan))
    (row : ByteRows) : Except AscendError (ℕ × List (ByteSpan × ByteSpan)) := do
  raiseIf (¬(0 ≤ deviceBlock ∧ deviceBlock < row.shape0)) (.valueError "device block outside allocated cache")
  let stop := done.1 + row.shape1
  pure (stop, done.2 ++ [(row.row deviceBlock.toNat, cpu.slice cpuBlock.toNat done.1 stop)])

namespace AscendLayoutWorker

/-- Append the spans of one plan entry, one for each row of its layer. -/
def addEntrySpans (worker : AscendLayoutWorker) (spans : List (ByteSpan × ByteSpan)) (entry : PlanEntry) :
    Except AscendError (List (ByteSpan × ByteSpan)) := do
  let (allocation, rows) ← getIndex worker.layers entry.tensorIdx
  let cpu ← getIndex worker.cpuTensors allocation
  raiseIf (¬(0 ≤ entry.cpuBlock ∧ entry.cpuBlock < cpu.shape0)) (.valueError "CPU block outside allocated cache")
  raiseIf (entry.size ≠ rowBytes rows) (.valueError "logical cache page size changed")
  let page ← getIndex worker.pages allocation
  let done ← loop (addRowSpan entry.deviceBlock cpu entry.cpuBlock) (entry.subBlock * page, spans) rows
  pure done.2

/-- `AscendLayoutWorker._spans`: pairs of a device span and a CPU span. -/
def spans (worker : AscendLayoutWorker) (plan : List PlanEntry) :
    Except AscendError (List (ByteSpan × ByteSpan)) :=
  loop worker.addEntrySpans [] plan

/-- What `_submit` computes from the two specs before its first copy. -/
def resolve (worker : AscendLayoutWorker) (gpuSpec : GPULoadStoreSpec) (cpuSpec : CPULoadStoreSpec) :
    Except AscendError (List (ByteSpan × ByteSpan)) := do
  let plan ← copyPlan gpuSpec cpuSpec worker.refs worker.factor
  worker.spans plan

end AscendLayoutWorker

/-- The bytes of the device and of the host region, by address. -/
structure Memories where
  device : ℕ → UInt8
  cpu : ℕ → UInt8

/-- The moves of `destination.copy_(source)`, which broadcasts a source of one element. -/
def copyMoves (destination source : ByteSpan) : Except AscendError (List (ℕ × ℕ)) :=
  if destination.length = source.length then
    .ok ((List.range destination.length).map fun i => (destination.address i, source.address i))
  else if source.length = 1 then
    .ok ((List.range destination.length).map fun i => (destination.address i, source.address 0))
  else .error .runtimeError

/-- One round of the copy loop of `_submit`. -/
def copySpan (store : Bool) (memories : Memories) (span : ByteSpan × ByteSpan) : Except AscendError Memories :=
  if store then do
    let moves ← copyMoves span.2 span.1
    pure { memories with cpu := copyCells memories.device moves memories.cpu }
  else do
    let moves ← copyMoves span.1 span.2
    pure { memories with device := copyCells memories.cpu moves memories.device }

/-- The copy loop of `_submit`, run to its end on the stream. -/
def copySpans (store : Bool) (memories : Memories) (spans : List (ByteSpan × ByteSpan)) :
    Except AscendError Memories :=
  loop (copySpan store) memories spans

end KVTiering.Model
