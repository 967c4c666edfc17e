import KVTiering.Model.AsyncLookup
import KVTiering.Model.SoleStore
import Mathlib.Data.Finset.Card

/-! # Lookups and deletes of the file system tier

A process that alone uses a tier looks its keys up on the worker thread of its lookup manager and deletes keys
on the scheduler thread, while the pool threads store and load blocks. `batch_lookup` asks the segment store in
one critical section and then tests for one file after another; `delete` deletes the rows in one transaction and
then unlinks one file after another. Any operation of the other threads may come in between: a call on the
segment store, a block file that a store has put in place, or one that a failed load has removed.

What a block file is called is up to the file mapper, a parameter.
-/

namespace KVTiering.Model

inductive LookupResult where
  | hit
  | miss
  | retry
deriving DecidableEq, Repr

structure TierDeleteResult where
  removedKeys : Finset OffloadKey
  deletedCount : ℕ
deriving DecidableEq

/-- The locals of `batch_lookup`: `segment_hits`, and the keys at the missing indices still to be tested. -/
structure BatchLookup where
  segmentHits : List Bool
  missing : List (OffloadKey × ℕ)

/-- The locals of `delete` in its loop: the keys still to be unlinked, and the two sets. -/
structure Deletion where
  keyList : List OffloadKey
  deletedKeys : Finset OffloadKey
  removedKeys : Finset OffloadKey

structure FileSystemTier where
  /-- `segment_store`, which is `None` in the file layout -/
  segmentStore : Option SoleStore
  /-- the block files that exist -/
  files : Finset String
  lookupManager : AsyncLookupManager
  /-- the call of `batch_lookup` that the worker thread is in -/
  batchLookup : Option BatchLookup
  /-- the call of `delete` that the scheduler thread is in -/
  deletion : Option Deletion

namespace FileSystemTier

/-- A tier opened on a directory that may already hold blocks. -/
def init (segments : Option (Database × SegmentConfig)) (files : Finset String) : FileSystemTier :=
  ⟨segments.map fun opened => .init opened.1 opened.2, files, .init, none, none⟩

/-! ## The scheduler thread -/

def lookup (tier : FileSystemTier) (key : OffloadKey) (reqContext : ReqContext) : LookupResult × FileSystemTier :=
  let (result, lookupManager) := tier.lookupManager.lookup key reqContext
  (match result with
    | none => .retry
    | some found => if found then .hit else .miss, { tier with lookupManager := lookupManager })

def onScheduleEnd (tier : FileSystemTier) : FileSystemTier :=
  { tier with lookupManager := tier.lookupManager.flush }

def onRequestFinished (tier : FileSystemTier) (reqContext : ReqContext) : Except LookupError FileSystemTier :=
  match tier.lookupManager.cleanup reqContext.reqId with
  | .error raised => .error raised
  | .ok lookupManager => .ok { tier with lookupManager := lookupManager }

/-- `delete` up to its loop. -/
def delete (tier : FileSystemTier) (keys : List OffloadKey) : FileSystemTier :=
  match tier.segmentStore with
  | none => { tier with deletion := some ⟨keys, ∅, ∅⟩ }
  | some segments =>
    let (deletedKeys, db, store) := segments.store.delete segments.db keys
    { tier with segmentStore := some ⟨db, store⟩, deletion := some ⟨keys, deletedKeys, ∅⟩ }

/-- One round of the loop in `delete`: the file is unlinked or is not there, or an `OSError` is logged. -/
def unlink (fileName : OffloadKey → String) (tier : FileSystemTier) (failed : Bool) : Option FileSystemTier :=
  match tier.deletion with
  | some ⟨key :: rest, deletedKeys, removedKeys⟩ =>
    if failed then some { tier with deletion := some ⟨rest, deletedKeys, removedKeys⟩ }
    else if fileName key ∈ tier.files then
      some { tier with
        files := tier.files.erase (fileName key)
        deletion := some ⟨rest, insert key deletedKeys, insert key removedKeys⟩ }
    else some { tier with deletion := some ⟨rest, deletedKeys, insert key removedKeys⟩ }
  | _ => none

/-- What `delete` returns after its loop. -/
def returnDelete (tier : FileSystemTier) : Option (TierDeleteResult × FileSystemTier) :=
  match tier.deletion with
  | some ⟨[], deletedKeys, removedKeys⟩ => some (⟨removedKeys, deletedKeys.card⟩, { tier with deletion := none })
  | _ => none

/-! ## The worker thread -/

/-- `batch_lookup` for the next group, up to its first file. -/
def startBatchLookup (tier : FileSystemTier) : Option FileSystemTier :=
  let keys := tier.lookupManager.worker.group.map LookupQuery.key
  if keys = [] ∨ tier.batchLookup.isSome then none
  else
    match tier.segmentStore with
    | none => some { tier with batchLookup := some ⟨keys.map fun _ => false, keys.zipIdx⟩ }
    | some segments =>
      let (segmentHits, store) := segments.store.containsMany segments.db keys
      some { tier with
        segmentStore := some { segments with store := store }
        batchLookup := some ⟨segmentHits, keys.zipIdx.filter fun item => !segmentHits.getD item.2 false⟩ }

/-- `os.path.exists` for the next of the missing keys. -/
def checkFile (fileName : OffloadKey → String) (tier : FileSystemTier) : Option FileSystemTier :=
  match tier.batchLookup with
  | some ⟨segmentHits, (key, index) :: rest⟩ =>
    some { tier with batchLookup := some ⟨segmentHits.set index (fileName key ∈ tier.files), rest⟩ }
  | _ => none

/-- `batch_lookup` returns its hits to the worker. -/
def endBatchLookup (tier : FileSystemTier) : Option FileSystemTier :=
  match tier.batchLookup with
  | some ⟨segmentHits, []⟩ =>
    (tier.lookupManager.answerGroup (some segmentHits)).map fun lookupManager =>
      { tier with lookupManager := lookupManager, batchLookup := none }
  | _ => none

/-- `batch_lookup` raises to the worker. -/
def raiseBatchLookup (tier : FileSystemTier) : Option FileSystemTier :=
  (tier.lookupManager.answerGroup none).map fun lookupManager =>
    { tier with lookupManager := lookupManager, batchLookup := none }

end FileSystemTier

/-- The steps of the threads of the process. -/
inductive TierEvent where
  | lookup (key : OffloadKey) (reqContext : ReqContext)
  | onScheduleEnd
  | onRequestFinished (reqContext : ReqContext)
  | delete (keys : List OffloadKey)
  | unlink (failed : Bool)
  | returnDelete
  | store (call : StoreCall)
  /-- the `os.replace` of `store_block` -/
  | writeFile (key : OffloadKey)
  /-- the `os.remove` of `load_block` -/
  | removeFile (key : OffloadKey)
  | getBatch
  | startBatchLookup
  | checkFile
  | endBatchLookup
  | raiseBatchLookup
  | postResults

namespace FileSystemTier

/-- One step. The scheduler thread makes no other call while it is in `delete`. -/
def step (fileName : OffloadKey → String) (tier : FileSystemTier) : TierEvent → Option FileSystemTier
  | .lookup key reqContext => if tier.deletion.isNone then some (tier.lookup key reqContext).2 else none
  | .onScheduleEnd => if tier.deletion.isNone then some tier.onScheduleEnd else none
  | .onRequestFinished reqContext =>
    if tier.deletion.isNone then (tier.onRequestFinished reqContext).toOption else none
  | .delete keys => if tier.deletion.isNone then some (tier.delete keys) else none
  | .unlink failed => tier.unlink fileName failed
  | .returnDelete => tier.returnDelete.map Prod.snd
  | .store call => tier.segmentStore.map fun segments => { tier with segmentStore := some (segments.call call) }
  | .writeFile key => some { tier with files := insert (fileName key) tier.files }
  | .removeFile key => some { tier with files := tier.files.erase (fileName key) }
  | .getBatch => tier.lookupManager.getBatch.map fun lookupManager => { tier with lookupManager := lookupManager }
  | .startBatchLookup => tier.startBatchLookup
  | .checkFile => tier.checkFile fileName
  | .endBatchLookup => tier.endBatchLookup
  | .raiseBatchLookup => tier.raiseBatchLookup
  | .postResults =>
    tier.lookupManager.postResults.map fun lookupManager => { tier with lookupManager := lookupManager }

end FileSystemTier

end KVTiering.Model
