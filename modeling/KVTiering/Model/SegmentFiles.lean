import KVTiering.Data.Fallible
import KVTiering.Model.Cluster

/-! # One segment store and its segment files

A single store calls its operations one after the other, together with the bytes that they move between the
segment files and the buffer of the caller. A system call may raise or transfer less than it was asked to at any
point of a call, and the segment files may be changed by other hands in between. The plans that the store has been
given and all writes ever planned are history: no operation reads them.
-/

namespace KVTiering.Model

/-- The system call at which a transfer is cut short, and the bytes it has transferred by then; none if it does not
even open the segment file. -/
structure Interruption where
  call : ℕ
  transferred : Option ℕ
deriving DecidableEq, Repr

/-- Segment files, some of which may not exist. -/
abbrev SegmentMap := ℕ → Option (List UInt8)

/-- The system calls of a transfer, one after another, until one of them raises or is cut short. -/
def transfer {σ : Type} (perform : σ → IoCall → Except σ σ) (cut : Option ℕ → σ → IoCall → σ) (calls : List IoCall)
    (interrupted : Option Interruption) (state : σ) : Except σ σ :=
  match interrupted with
  | none => loop perform state calls
  | some interruption =>
    match calls[interruption.call]? with
    | none => loop perform state calls
    | some call => loop perform state (calls.take interruption.call) >>= fun state =>
      .error (cut interruption.transferred state call)

/-- A system call of `load_many`; it changes the buffer. -/
def performRead (segments : SegmentMap) (memory : List UInt8) : IoCall → Except (List UInt8) (List UInt8)
  | .preadv segmentId offset buffers =>
    match segments segmentId with
    | none => .error memory
    | some file =>
      let data := readAt file offset (totalLength buffers)
      if data.length = totalLength buffers then .ok (scatter memory buffers data)
      else .error (scatter memory buffers data)
  | .raise _ => .error memory
  | _ => .ok memory

def cutRead (segments : SegmentMap) (transferred : Option ℕ) (memory : List UInt8) : IoCall → List UInt8
  | .preadv segmentId offset buffers =>
    match segments segmentId, transferred with
    | some file, some transferred =>
      scatter memory buffers ((readAt file offset (totalLength buffers)).take transferred)
    | _, _ => memory
  | _ => memory

/-- A system call of `write_entries`; it changes the segment files, and creates the one it writes to. -/
def performWrite (memory : List UInt8) (segments : SegmentMap) : IoCall → Except SegmentMap SegmentMap
  | .pwritev segmentId offset buffers =>
    .ok (Function.update segments segmentId
      (some (writeAt ((segments segmentId).getD []) offset (gather memory buffers))))
  | _ => .ok segments

def cutWrite (memory : List UInt8) (transferred : Option ℕ) (segments : SegmentMap) : IoCall → SegmentMap
  | .pwritev segmentId offset buffers =>
    match transferred with
    | some transferred => Function.update segments segmentId
        (some (writeAt ((segments segmentId).getD []) offset ((gather memory buffers).take transferred)))
    | none => segments
  | _ => segments

/-- How `store_many` and `load_many` end. -/
inductive TransferEnd where
  | returned
  /-- an error is raised before a segment file is touched -/
  | refused (error : StoreError)
  /-- an exception is raised while the blocks are transferred -/
  | failed
deriving DecidableEq, Repr

/-- The store, its tables and its segment files. -/
structure SegmentFiles where
  db : Database
  store : SegmentStore
  segments : SegmentMap
  plans : List SegmentStorePlan
  issued : List Issue

inductive SegmentCall where
  /-- `get_locations`; also what is left of a `prepare_store` or of a `load_many` whose transaction is rolled back -/
  | getLocations (keys : List OffloadKey)
  | prepareStore (keys : List OffloadKey) (blockIds : List ℕ)
  | writeEntries (iovMax : ℕ) (ioBatchBlocks : Option ℕ) (entries : List SegmentWrite) (buffer : List UInt8)
      (interrupted : Option Interruption)
  | completeStore (plan : SegmentStorePlan) (success : Bool)
  /-- `complete_store` raises after its commit, having read back some of the rows. -/
  | completeRaised (plan : SegmentStorePlan) (read : List OffloadKey)
  | storeMany (iovMax : ℕ) (keys : List OffloadKey) (buffer : List UInt8) (blockIds : List ℕ)
      (interrupted : Option Interruption)
  | loadMany (iovMax : ℕ) (ioBatchBlocks : Option ℕ) (keys : List OffloadKey) (buffer : List UInt8)
      (blockIds : List ℕ) (locations : Option (List (Option SegmentLocation))) (interrupted : Option Interruption)
  | delete (keys : List OffloadKey)
  /-- the store is closed, and another one is opened -/
  | reopen (config : SegmentConfig)
  /-- someone else changes the segment files -/
  | alterFiles (segments : SegmentMap)

namespace SegmentFiles

/-- A store opened on tables that may already hold rows. -/
def init (db : Database) (config : SegmentConfig) (segments : SegmentMap) : SegmentFiles :=
  ⟨db, .init config, segments, [], []⟩

/-- The tables and the cache have changed. -/
def update (s : SegmentFiles) (db : Database) (store : SegmentStore) : SegmentFiles :=
  { s with db := db, store := store }

/-- The cache that `get_locations` leaves behind. -/
def lookUp (s : SegmentFiles) (keys : List OffloadKey) : SegmentFiles :=
  s.update s.db (s.store.getLocations s.db keys).2

/-- `prepare_store` has returned this plan. -/
def prepared (s : SegmentFiles) (plan : SegmentStorePlan) (db : Database) (store : SegmentStore) : SegmentFiles :=
  { s.update db store with
    plans := plan :: s.plans
    issued := s.issued ++ plan.entries.map (Issue.mk s.store.config) }

def completed (s : SegmentFiles) (plan : SegmentStorePlan) (success : Bool) : SegmentFiles :=
  let (db, store) := s.store.completeStore s.db plan success
  s.update db store

def deleted (s : SegmentFiles) (keys : List OffloadKey) : SegmentFiles :=
  let (_, db, store) := s.store.delete s.db keys
  s.update db store

/-- `write_entries`. The first flush opens its file before `range` refuses a step of zero. -/
def write (s : SegmentFiles) (maxBuffers : ℕ) (entries : List SegmentWrite) (buffer : List UInt8)
    (interrupted : Option Interruption) : Except SegmentMap SegmentMap :=
  match entries with
  | [] => .ok s.segments
  | first :: _ =>
    if maxBuffers = 0 then
      .error (Function.update s.segments first.segmentId (some ((s.segments first.segmentId).getD [])))
    else transfer (performWrite buffer) (cutWrite buffer)
      (writeEntries ⟨s.store.config.blockSize, buffer.length, maxBuffers⟩ entries).calls interrupted s.segments

/-- `store_many`. -/
def storeMany (s : SegmentFiles) (iovMax : ℕ) (keys : List OffloadKey) (buffer : List UInt8) (blockIds : List ℕ)
    (interrupted : Option Interruption) : TransferEnd × SegmentFiles :=
  match s.store.prepareStore s.db keys blockIds with
  | .error error => (.refused error, s)
  | .ok (plan, db, store) =>
    let s := s.prepared plan db store
    match s.write (bufferBound iovMax none) plan.entries buffer interrupted with
    | .error segments => (.failed, { s with segments := segments }.completed plan false)
    | .ok segments => (.returned, { s with segments := segments }.completed plan true)

/-- What `load_many` reads into the buffer, once it has a location for every key. `range` refuses a step of zero. -/
def read (s : SegmentFiles) (maxBuffers : ℕ) (keys : List OffloadKey) (buffer : List UInt8) (blockIds : List ℕ)
    (locations : List (Option SegmentLocation)) (interrupted : Option Interruption) :
    Except (List UInt8) (List UInt8) :=
  if maxBuffers = 0 ∧ keys ≠ [] then .error buffer
  else transfer (performRead s.segments) (cutRead s.segments)
    (Model.loadMany ⟨s.store.config.blockSize, buffer.length, maxBuffers⟩ keys blockIds locations).calls interrupted
    buffer

/-- `load_many` with its locations: how it ends, what it leaves in the buffer, and the store afterwards. The delete
after a failure goes through. -/
def loadLocated (s : SegmentFiles) (maxBuffers : ℕ) (keys : List OffloadKey) (buffer : List UInt8)
    (blockIds : List ℕ) (locations : List (Option SegmentLocation)) (interrupted : Option Interruption) :
    TransferEnd × List UInt8 × SegmentFiles :=
  if keys.length ≠ locations.length then
    (.refused (.valueError "keys and locations must have the same length"), buffer, s)
  else
    let missing := locations.filter Option.isNone
    if missing ≠ [] then
      (.refused (.fileNotFoundError (toString missing.length ++ " KV block(s) not indexed")), buffer, s)
    else
      match s.read maxBuffers keys buffer blockIds locations interrupted with
      | .ok buffer => (.returned, buffer, s)
      | .error buffer => (.failed, buffer, s.deleted keys)

/-- `load_many`. -/
def loadMany (s : SegmentFiles) (iovMax : ℕ) (ioBatchBlocks : Option ℕ) (keys : List OffloadKey) (buffer : List UInt8)
    (blockIds : List ℕ) (locations : Option (List (Option SegmentLocation))) (interrupted : Option Interruption) :
    TransferEnd × List UInt8 × SegmentFiles :=
  if keys.length ≠ blockIds.length then
    (.refused (.valueError "keys and block_ids must have the same length"), buffer, s)
  else
    match locations with
    | none => (s.lookUp keys).loadLocated (bufferBound iovMax ioBatchBlocks) keys buffer blockIds
        (s.store.getLocations s.db keys).1 interrupted
    | some locations =>
      s.loadLocated (bufferBound iovMax ioBatchBlocks) keys buffer blockIds locations interrupted

def step (s : SegmentFiles) : SegmentCall → Option SegmentFiles
  | .getLocations keys => some (s.lookUp keys)
  | .prepareStore keys blockIds =>
    match s.store.prepareStore s.db keys blockIds with
    | .error _ => some s
    | .ok (plan, db, store) => some (s.prepared plan db store)
  | .writeEntries iovMax ioBatchBlocks entries buffer interrupted =>
    match s.write (bufferBound iovMax ioBatchBlocks) entries buffer interrupted with
    | .error segments => some { s with segments := segments }
    | .ok segments => some { s with segments := segments }
  | .completeStore plan success => if plan ∈ s.plans then some (s.completed plan success) else none
  | .completeRaised plan read =>
    if plan ∈ s.plans then
      let db := s.db.indexPlan s.store.config.blockSize plan
      some (s.update db (s.store.getLocations db read).2)
    else none
  | .storeMany iovMax keys buffer blockIds interrupted =>
    some (s.storeMany iovMax keys buffer blockIds interrupted).2
  | .loadMany iovMax ioBatchBlocks keys buffer blockIds locations interrupted =>
    some (s.loadMany iovMax ioBatchBlocks keys buffer blockIds locations interrupted).2.2
  | .delete keys => some (s.deleted keys)
  | .reopen config => some { s with store := .init config, plans := [] }
  | .alterFiles segments => some { s with segments := segments }

end SegmentFiles

end KVTiering.Model
