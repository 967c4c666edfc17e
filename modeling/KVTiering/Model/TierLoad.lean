import KVTiering.Model.Cluster
import KVTiering.Model.FileSystemTier

/-! # Lookups and loads in one state of the tier

`batch_lookup` with no other operation in between, and the tasks that `submit_load` makes of a job, as the
arguments of their partial applications.
-/

namespace KVTiering.Model

/-- `_batch_file_lookup`. -/
def batchFileLookup (files : Finset String) (paths : List String) : List Bool :=
  paths.map fun path => path ∈ files

/-- A task of `submit_load`. -/
inductive LoadTask where
  /-- `load_block` of the file of a key -/
  | loadBlock (key : OffloadKey) (blockId : ℕ)
  /-- `load_many` of keys with their locations -/
  | loadMany (chunk : List (OffloadKey × ℕ × SegmentLocation))
deriving DecidableEq, Repr

/-- The system calls of a task. -/
def LoadTask.task (io : IoConfig) : LoadTask → Task
  | .loadBlock key blockId => Model.loadBlock io key blockId
  | .loadMany chunk => Model.loadMany io (chunk.map fun entry => entry.1) (chunk.map fun entry => entry.2.1)
      (chunk.map fun entry => some entry.2.2)

/-- The tasks of a load in the segment layout: first the block files, then one task for each segment. -/
def segmentLoads (keys : List OffloadKey) (blockIds : List ℕ) (locations : List (Option SegmentLocation)) :
    List LoadTask :=
  ((keys.zip (blockIds.zip locations)).filter fun item => item.2.2.isNone).map (fun item =>
      .loadBlock item.1 item.2.1) ++
    (segmentEntries keys blockIds locations).values.map .loadMany

namespace FileSystemTier

/-- `batch_lookup`. -/
def wholeBatchLookup (fileName : OffloadKey → String) (tier : FileSystemTier) (keys : List OffloadKey) : List Bool :=
  match tier.segmentStore with
  | some segments =>
    let segmentHits := (segments.store.containsMany segments.db keys).1
    let missingIndices := (segmentHits.zipIdx.filter fun item => !item.1).map Prod.snd
    if missingIndices = [] then segmentHits
    else
      let missingPaths := missingIndices.map fun index => fileName (keys.getD index [])
      let legacyHits := batchFileLookup tier.files missingPaths
      (missingIndices.zip legacyHits).foldl (fun hits item => hits.set item.1 item.2) segmentHits
  | none => batchFileLookup tier.files (keys.map fileName)

/-- `submit_load`, up to the thread pool. -/
def submitLoad (tier : FileSystemTier) (keys : List OffloadKey) (blockIds : List ℕ) : List LoadTask :=
  match tier.segmentStore with
  | some segments => segmentLoads keys blockIds (segments.store.getLocations segments.db keys).1
  | none => (keys.zip blockIds).map fun item => .loadBlock item.1 item.2

end FileSystemTier

end KVTiering.Model
