import KVTiering.Data.ByteFile
import KVTiering.Model.SegmentStore
import Mathlib.Algebra.GroupWithZero.Nat
import Mathlib.Data.Prod.Lex

/-! # The tasks of the tier

A task of the thread pool is the system calls it has still to make, on slices of the flat view of the
primary tier, and the handler that runs when one of them raises. `writeEntries` and `loadMany` decide from
their arguments alone which vectored calls they make, so a task is listed when it is submitted. A call that
transfers less than was asked for raises after the transfer.
-/

namespace KVTiering.Model

/-- A slice of the flat byte view of the primary tier. -/
structure Slice where
  start : ℕ
  length : ℕ
deriving DecidableEq, Repr

/-- `byte_view[start:stop]` of a view of `viewSize` bytes. -/
def sliceOf (viewSize start stop : ℕ) : Slice := ⟨min start viewSize, min stop viewSize - min start viewSize⟩

/-- The slice of a block of the primary tier. -/
def blockSlice (viewSize blockSize blockId : ℕ) : Slice :=
  sliceOf viewSize (blockId * blockSize) (blockId * blockSize + blockSize)

/-- The system calls of a task, and the statements at which it raises by itself. -/
inductive IoCall where
  | pwritev (segmentId offset : ℕ) (buffers : List Slice)
  | preadv (segmentId offset : ℕ) (buffers : List Slice)
  | raise (error : StoreError)
  /-- `if os.path.exists(dest_path): return` -/
  | pathExists (key : OffloadKey)
  /-- the block is written to a temporary file, which then replaces the block file -/
  | replaceFile (key : OffloadKey) (source : Slice)
  /-- `os.readv` of a block file -/
  | readv (key : OffloadKey) (destination : Slice) (blockSize : ℕ)
deriving DecidableEq, Repr

/-- What a task does before it re-raises. -/
inductive Handler where
  | reraise
  /-- `self.delete(keys)` -/
  | delete (keys : List OffloadKey)
  /-- `os.remove(source_path)` -/
  | remove (key : OffloadKey)
deriving DecidableEq, Repr

structure Task where
  calls : List IoCall
  handler : Handler
deriving DecidableEq, Repr

/-- `lambda: None`. -/
def Task.nothing : Task := ⟨[], .reraise⟩

/-- What the store's methods read besides their arguments: the block size, the size of the primary view,
and the bound on the buffers of one call. -/
structure IoConfig where
  blockSize : ℕ
  viewSize : ℕ
  maxBuffers : ℕ

/-- `iov_max` of `_pwritev_all` and `_preadv_all`, given that of the system. -/
def bufferBound (iovMax : ℕ) (maxBuffers : Option ℕ) : ℕ :=
  match maxBuffers with
  | none => iovMax
  | some maxBuffers => min iovMax maxBuffers

/-- The offsets and buffers of the calls of `_pwritev_all` and `_preadv_all`. -/
def vectored (io : IoConfig) (offset : ℕ) (buffers : List Slice) : List (ℕ × List Slice) :=
  (List.range ((buffers.length + io.maxBuffers - 1) / io.maxBuffers)).map fun i =>
    (offset + ((buffers.take (i * io.maxBuffers)).map Slice.length).sum,
      (buffers.drop (i * io.maxBuffers)).take io.maxBuffers)

/-- The locals of `write_entries` and of `load_many`: the calls flushed so far, and the run of buffers at
`segment` and `offset` that is not flushed yet. -/
structure IoState where
  calls : List IoCall
  segment : ℕ
  offset : ℕ
  views : List Slice

/-- `flush`. -/
def IoState.flush (io : IoConfig) (call : ℕ → ℕ → List Slice → IoCall) (state : IoState) : IoState :=
  { state with
    calls := state.calls ++ (vectored io state.offset state.views).map fun part =>
      call state.segment part.1 part.2
    views := [] }

/-- The next buffer extends the run, or the run is flushed and the buffer begins the next one. -/
def IoState.add (io : IoConfig) (call : ℕ → ℕ → List Slice → IoCall) (state : IoState)
    (segment offset expected : ℕ) (view : Slice) : IoState :=
  let state :=
    if state.views ≠ [] ∧ (segment ≠ state.segment ∨ offset ≠ expected) then state.flush io call else state
  let state := if state.views = [] then { state with segment := segment, offset := offset } else state
  { state with views := state.views ++ [view] }

/-- One round of the loop of `write_entries`. -/
def IoState.write (io : IoConfig) (state : IoState) (entry : SegmentWrite) : IoState :=
  state.add io .pwritev entry.segmentId entry.offset (state.offset + state.views.length * io.blockSize)
    (blockSlice io.viewSize io.blockSize entry.blockId)

/-- `SegmentStore.write_entries`. -/
def writeEntries (io : IoConfig) : List SegmentWrite → Task
  | [] => .nothing
  | first :: rest =>
    let state := (first :: rest).foldl (IoState.write io) ⟨[], first.segmentId, first.offset, []⟩
    ⟨(state.flush io .pwritev).calls, .reraise⟩

/-- The loop of `load_many` over the sorted entries. -/
def loadEntries (io : IoConfig) : IoState → List (SegmentLocation × Slice) → List IoCall
  | state, [] => (state.flush io .preadv).calls
  | state, (location, destination) :: rest =>
    if location.length ≠ io.blockSize then
      state.calls ++ [.raise (.osError ("Indexed block size " ++ toString location.length ++
        " does not match expected size " ++ toString io.blockSize))]
    else
      let expected := state.offset + (state.views.map Slice.length).sum
      loadEntries io (state.add io .preadv location.segmentId location.offset expected destination) rest

/-- `SegmentStore.load_many`, given the locations. -/
def loadMany (io : IoConfig) (keys : List OffloadKey) (blockIds : List ℕ)
    (locations : List (Option SegmentLocation)) : Task :=
  if keys.length ≠ blockIds.length then
    ⟨[.raise (.valueError "keys and block_ids must have the same length")], .reraise⟩
  else if keys.length ≠ locations.length then
    ⟨[.raise (.valueError "keys and locations must have the same length")], .reraise⟩
  else
    let missing := locations.filter Option.isNone
    if missing ≠ [] then
      ⟨[.raise (.fileNotFoundError (toString missing.length ++ " KV block(s) not indexed"))], .reraise⟩
    else
      let entries := (locations.zip blockIds).filterMap fun item =>
        item.1.map fun location => (location, blockSlice io.viewSize io.blockSize item.2)
      let entries := sortedBy (fun entry => toLex (entry.1.segmentId, entry.1.offset)) entries
      ⟨loadEntries io ⟨[], 0, 0, []⟩ entries, .delete keys⟩

def IoCall.isRaise : IoCall → Bool
  | .raise _ => true
  | _ => false

/-- What one whole `load_many` does to the index and the cache; `failed` tells whether one of its system
calls raises. -/
def SegmentStore.loadMany (store : SegmentStore) (db : Database) (viewSize maxBuffers : ℕ)
    (keys : List OffloadKey) (blockIds : List ℕ) (locations : Option (List (Option SegmentLocation)))
    (failed : Bool) : Database × SegmentStore :=
  if keys.length ≠ blockIds.length then (db, store)
  else
    let (locations, store) := match locations with
      | none => store.getLocations db keys
      | some locations => (locations, store)
    let task := Model.loadMany ⟨store.config.blockSize, viewSize, maxBuffers⟩ keys blockIds locations
    if task.calls.any IoCall.isRaise || (failed && !task.calls.isEmpty) then
      match task.handler with
      | .delete keys => (store.delete db keys).2
      | _ => (db, store)
    else (db, store)

/-- `store_block`. -/
def storeBlock (io : IoConfig) (key : OffloadKey) (blockId : ℕ) : Task :=
  ⟨[.pathExists key, .replaceFile key (blockSlice io.viewSize io.blockSize blockId)], .reraise⟩

/-- `load_block`. -/
def loadBlock (io : IoConfig) (key : OffloadKey) (blockId : ℕ) : Task :=
  ⟨[.readv key (blockSlice io.viewSize io.blockSize blockId) io.blockSize], .remove key⟩

/-- `group_writes`. -/
def groupWrites (entries : List SegmentWrite) : List (List SegmentWrite) :=
  (Dict.groupOn SegmentWrite.segmentId entries).values

end KVTiering.Model
