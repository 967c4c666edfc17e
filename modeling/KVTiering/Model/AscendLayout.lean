import KVTiering.Data.Dict
import KVTiering.Data.Fallible
import Mathlib.Algebra.GroupWithZero.Nat

/-! # Layouts of Ascend caches

The bytes of a device, and those of the host region, have flat addresses. `ByteRows` is a
two-dimensional byte view of such a memory and `ByteSpan` a one-dimensional one; both say which
address each of their elements has. The tensors of the runner are a parameter, together with the
view `tensor.view(torch.int8).view(count, -1)` that is taken of them.
-/

namespace KVTiering.Model

inductive AscendError where
  | valueError (message : String)
  | keyError (key : String)
  | indexError
  | runtimeError
deriving DecidableEq, Repr

/-- `d[key]`. -/
def getItem {ν : Type} (d : Dict String ν) (key : String) : Except AscendError ν :=
  match d.get? key with
  | some value => .ok value
  | none => .error (.keyError key)

/-- `xs[index]` for an index that is not negative. -/
def getIndex {ν : Type} (xs : List ν) (index : ℕ) : Except AscendError ν :=
  match xs[index]? with
  | some value => .ok value
  | none => .error .indexError

/-- `torch.device`. -/
structure Device where
  type : String
  index : ℕ
deriving DecidableEq, Repr

structure ByteSpan where
  start : ℕ
  length : ℕ
  step : ℕ
deriving DecidableEq, Repr

/-- The address of an element. -/
def ByteSpan.address (span : ByteSpan) (i : ℕ) : ℕ := span.start + i * span.step

structure ByteRows where
  device : Device
  base : ℕ
  shape0 : ℕ
  shape1 : ℕ
  stride0 : ℕ
  stride1 : ℕ
deriving DecidableEq, Repr

namespace ByteRows

/-- The address of an element. -/
def address (rows : ByteRows) (block i : ℕ) : ℕ := rows.base + block * rows.stride0 + i * rows.stride1

/-- `rows[block]`. -/
def row (rows : ByteRows) (block : ℕ) : ByteSpan :=
  ⟨rows.base + block * rows.stride0, rows.shape1, rows.stride1⟩

/-- `rows[block, start:stop]`; a slice ends where the row does. -/
def slice (rows : ByteRows) (block start stop : ℕ) : ByteSpan :=
  ⟨rows.address block (min start rows.shape1), min stop rows.shape1 - min start rows.shape1, rows.stride1⟩

end ByteRows

structure KVCacheTensor where
  size : ℕ
  blockStride : ℕ
  sharedBy : List String

/-- The spec of one layer, by the classes that `build_layout` tells apart. -/
inductive LayerSpec where
  | attention (pageSizeBytes : ℕ)
  | mamba (pageSizeBytes : ℕ)
  | other

inductive KVCacheSpec where
  | layer (spec : LayerSpec)
  | uniformType (kvCacheSpecs : Dict String LayerSpec)

structure KVCacheGroupSpec where
  layerNames : List String
  kvCacheSpec : KVCacheSpec

structure KVCacheConfig where
  numBlocks : ℤ
  kvCacheTensors : List KVCacheTensor
  kvCacheGroups : List KVCacheGroupSpec

/-- The cache of a layer: one tensor, a list or tuple of them, or something else. -/
inductive LayerCache (τ : Type) where
  | tensor (tensor : τ)
  | tensors (tensors : List τ)
  | other

structure CanonicalKVCacheRef where
  tensorIdx : ℕ
  pageSizeBytes : ℕ
deriving DecidableEq, Repr

structure AscendLayout where
  pageSizes : List ℕ
  layers : List (ℕ × List ByteRows)
  groupDataRefs : List (List CanonicalKVCacheRef)
deriving DecidableEq, Repr

/-- `sum(row.shape[1] for row in rows)`. -/
def rowBytes (rows : List ByteRows) : ℕ := (rows.map ByteRows.shape1).sum

/-- `pages` and `allocation_by_layer`, as far as the allocations have been read. -/
structure Allocations where
  pages : List ℕ
  allocationByLayer : Dict String ℕ

/-- Record that a layer lives in the allocation `index`. -/
def placeLayer (index : ℕ) (placed : Dict String ℕ) (name : String) : Except AscendError (Dict String ℕ) := do
  raiseIf (placed.contains name = true) (.valueError "layer belongs to multiple allocations")
  pure (placed.set name index)

def addAllocation (count : ℕ) (read : Allocations) (allocation : KVCacheTensor) :
    Except AscendError Allocations := do
  raiseIf (allocation.blockStride ≠ 0 ∨ allocation.size % count ≠ 0)
    (.valueError "packed or uneven Ascend allocation is unsupported")
  let placed ← loop (placeLayer read.pages.length) read.allocationByLayer allocation.sharedBy
  pure ⟨read.pages ++ [allocation.size / count], placed⟩

/-- The spec of the layer `name` in its group, and the page size it promises. -/
def KVCacheSpec.pageSizeBytes (spec : KVCacheSpec) (name : String) : Except AscendError ℕ := do
  let spec ← match spec with
    | .layer spec => pure spec
    | .uniformType kvCacheSpecs => getItem kvCacheSpecs name
  match spec with
  | .attention pageSizeBytes | .mamba pageSizeBytes => pure pageSizeBytes
  | .other => .error (.valueError "unsupported Ascend cache spec")

def LayerCache.toTensors {τ : Type} : LayerCache τ → Except AscendError (List τ)
  | .tensor single => .ok [single]
  | .tensors (first :: rest) => .ok (first :: rest)
  | .tensors [] | .other => .error (.valueError "missing layer cache tensors")

section

variable {τ : Type} (viewRows : τ → ℕ → Except AscendError ByteRows)

/-- View a tensor as byte rows, or refuse it. -/
def addRow (count : ℕ) (rows : List ByteRows) (tensor : τ) : Except AscendError (List ByteRows) := do
  let row ← viewRows tensor count
  raiseIf (row.stride1 ≠ 1 ∨ row.stride0 < row.shape1)
    (.valueError "overlapping or non-contiguous byte rows")
  pure (rows ++ [row])

/-- All layers found so far, and the references and allocations of the group being read. -/
structure GroupState where
  layers : List (ℕ × List ByteRows)
  refs : List CanonicalKVCacheRef
  used : List ℕ

def addLayer (count : ℕ) (allocations : Allocations) (caches : Dict String (LayerCache τ)) (spec : KVCacheSpec)
    (group : GroupState) (name : String) : Except AscendError GroupState := do
  let pageSizeBytes ← spec.pageSizeBytes name
  let index ← getItem allocations.allocationByLayer name
  raiseIf (index ∈ group.used) (.valueError "multiple layers in one group share an allocation")
  let cache ← getItem caches name
  let tensors ← cache.toTensors
  let rows ← loop (addRow viewRows count) [] tensors
  let page ← getIndex allocations.pages index
  raiseIf (rowBytes rows ≤ 0 ∨ rowBytes rows > page ∨ rowBytes rows > pageSizeBytes)
    (.valueError "logical cache exceeds its allocation page")
  pure {
    layers := group.layers ++ [(index, rows)]
    refs := group.refs ++ [⟨group.layers.length, rowBytes rows⟩]
    used := index :: group.used }

/-- One round of the loop over the groups: their layers so far, and a list of references each. -/
def addGroup (count : ℕ) (allocations : Allocations) (caches : Dict String (LayerCache τ))
    (read : List (ℕ × List ByteRows) × List (List CanonicalKVCacheRef)) (group : KVCacheGroupSpec) :
    Except AscendError (List (ℕ × List ByteRows) × List (List CanonicalKVCacheRef)) := do
  let done ← loop (addLayer viewRows count allocations caches group.kvCacheSpec) ⟨read.1, [], []⟩
    group.layerNames
  pure (done.layers, read.2 ++ [done.refs])

def buildLayout (config : KVCacheConfig) (caches : Dict String (LayerCache τ)) :
    Except AscendError AscendLayout := do
  raiseIf (config.numBlocks ≤ 0) (.valueError "cache must contain blocks")
  let count := config.numBlocks.toNat
  let allocations ← loop (addAllocation count) ⟨[], .empty⟩ config.kvCacheTensors
  let done ← loop (addGroup viewRows count allocations caches) ([], []) config.kvCacheGroups
  pure ⟨allocations.pages, done.1, done.2⟩

end

end KVTiering.Model
