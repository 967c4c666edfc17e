import KVTiering.Model.SharedStore

/-! # The statements of the segment stores

Every process has a store and any number of threads that call its methods. A method runs statement by statement:
it takes the thread lock of its store, and the file lock of the directory if it writes; it then sends one query
after another, and any other thread may take its steps in between. A statement may raise, and a process may be
killed between any two statements, which frees its locks and leaves what was committed; a new store is then
opened in its place.

A transaction is one statement. The plans returned to a process are history: they tell which plans it can
complete.
-/

namespace KVTiering.Model

/-- The methods that hold the file lock, with their arguments. -/
inductive WriteOperation where
  | prepareStore (keys : List OffloadKey) (blockIds : List ℕ)
  | completeStore (plan : SegmentStorePlan) (success : Bool)
  | delete (keys : List OffloadKey)

inductive StoreOperation where
  | getLocations (keys : List OffloadKey)
  | write (operation : WriteOperation)

/-- What a method has returned or raised. -/
inductive StoreResult where
  | locations (found : List (Option SegmentLocation))
  | plan (plan : SegmentStorePlan)
  | deleted (keys : Finset OffloadKey)
  | completed
  | raised

/-- Where a thread stands in a method of the store. -/
inductive StoreThread where
  /-- in no method; what the last one returned -/
  | outside (result : Option StoreResult)
  /-- before `with self._thread_lock` -/
  | entering (operation : StoreOperation)
  /-- before `fcntl.flock(self._lock_fd, fcntl.LOCK_EX)` -/
  | locking (operation : WriteOperation)
  /-- in the loop of `get_locations`: the positions found, and the chunks still to be queried -/
  | selecting (keys : List OffloadKey) (locations : Dict OffloadKey SegmentLocation)
      (chunks : List (List OffloadKey))
  /-- in the `contains_many` of `prepare_store` -/
  | preparing (keys : List OffloadKey) (blockIds : List ℕ) (locations : Dict OffloadKey SegmentLocation)
      (chunks : List (List OffloadKey))
  /-- before `_allocation_state` -/
  | allocating (keys : List OffloadKey) (blockIds : List ℕ) (unique : Dict OffloadKey ℕ)
  /-- before the transaction of `prepare_store`: the plan, and the rows to be written to `metadata` -/
  | reserving (keys : List OffloadKey) (blockIds : List ℕ) (plan : SegmentStorePlan) (rows : List (MetadataName × ℕ))
  /-- before the transaction of `complete_store` -/
  | indexing (plan : SegmentStorePlan)
  /-- in the `get_locations` of `complete_store`: the chunks that will be read, and whether another one raises -/
  | readingBack (chunks : List (List OffloadKey)) (raises : Bool)
  /-- in the first loop of `delete`: the keys with a row so far, and the chunks still to be queried -/
  | finding (keys : List OffloadKey) (existing : List OffloadKey) (chunks : List (List OffloadKey))
  /-- before the transaction of `delete` -/
  | deleting (keys : List OffloadKey) (existing : List OffloadKey)
  /-- the transaction of `delete` is committed, the cache still has the positions -/
  | forgetting (existing : List OffloadKey)
  /-- before `fcntl.flock(self._lock_fd, fcntl.LOCK_UN)` -/
  | unlocking (result : StoreResult)
  /-- before the thread lock is released -/
  | releasing (result : StoreResult)

namespace StoreThread

def isOutside : StoreThread → Bool
  | .outside _ => true
  | _ => false

/-- The thread holds the thread lock of its store. -/
def holdsThreadLock : StoreThread → Bool
  | .outside _ | .entering _ => false
  | _ => true

/-- The thread holds the file lock. -/
def holdsFileLock : StoreThread → Bool
  | .preparing .. | .allocating .. | .reserving .. | .indexing _ | .readingBack .. | .finding .. | .deleting .. |
    .forgetting _ | .unlocking _ => true
  | _ => false

end StoreThread

/-- What a thread does next. -/
inductive StatementAction where
  | acquire
  | lockFile
  /-- the next query or local computation -/
  | proceed
  /-- a transaction is committed; after that of `complete_store`, the given number of chunks is read back before
  a query raises, or all of them -/
  | commit (readBack : Option ℕ)
  /-- the next statement raises -/
  | raise
  | unlockFile
  | release

inductive StatementEvent (ι θ : Type) where
  | call (process : ι) (thread : θ) (operation : StoreOperation)
  | act (process : ι) (thread : θ) (action : StatementAction)
  /-- the process is killed, and a store with this configuration is opened in its place -/
  | crash (process : ι) (config : SegmentConfig)

structure StoreThreads (ι θ : Type) where
  db : Database
  store : ι → SegmentStore
  threadLock : ι → Option θ
  fileLock : Option ι
  threads : ι → θ → StoreThread
  plans : ι → List SegmentStorePlan

/-- The keys that `get_locations` has no cached position for. -/
def SegmentStore.missingKeys (store : SegmentStore) (keys : List OffloadKey) : List OffloadKey :=
  keys.filter fun key => (store.locationCache.get? key).isNone

/-- The cached positions that `get_locations` starts with. -/
def SegmentStore.cachedLocations (store : SegmentStore) (keys : List OffloadKey) : Dict OffloadKey SegmentLocation :=
  keys.foldl (fun locations key =>
    match store.locationCache.get? key with
    | none => locations
    | some location => locations.set key location) Dict.empty

/-- The rows of a query get into the cache. -/
def SegmentStore.cacheRows (store : SegmentStore) (rows : List (OffloadKey × SegmentLocation)) : SegmentStore :=
  { store with locationCache := store.locationCache.setAll rows }

@[simp] theorem SegmentStore.cacheRows_config (store : SegmentStore) (rows : List (OffloadKey × SegmentLocation)) :
    (store.cacheRows rows).config = store.config := rfl

/-- What `prepare_store` plans, and the rows that it writes to `metadata`. -/
def Database.reservation (db : Database) (config : SegmentConfig) (unique : Dict OffloadKey ℕ) :
    SegmentStorePlan × List (MetadataName × ℕ) :=
  let (shardState, nextSegmentId, cursor) := db.allocationState config
  let allocation := unique.items.zipIdx.foldl (Allocation.append config cursor)
    ⟨shardState, nextSegmentId, List.replicate config.segmentShards []⟩
  (⟨allocation.entriesByShard.flatten⟩,
    metadataRows allocation.nextSegmentId ((cursor + unique.size) % config.segmentShards) allocation.shardState)

/-- Rows are written to `metadata`. -/
def Database.setMetadata (db : Database) (rows : List (MetadataName × ℕ)) : Database :=
  { db with metadata := db.metadata.setAll rows }

/-- The rows of some keys are deleted, one statement for each chunk. -/
def Database.deleteRows (db : Database) (keys : List OffloadKey) : Database :=
  { db with blocks := (chunks keys).foldl (fun blocks chunk =>
      blocks.filter fun key _ => !chunk.contains key) db.blocks }

theorem deleteRows_eraseDups (store : SegmentStore) (db : Database) (keys : List OffloadKey) :
    db.deleteRows keys.eraseDups = (store.delete db keys).2.1 := by
  simp [Database.deleteRows, SegmentStore.delete]

namespace StoreThreads

variable {ι θ : Type} [DecidableEq ι] [DecidableEq θ]

/-- Freshly constructed stores on a database that may already hold rows. -/
def init (db : Database) (config : ι → SegmentConfig) : StoreThreads ι θ where
  db := db
  store process := .init (config process)
  threadLock _ := none
  fileLock := none
  threads _ _ := .outside none
  plans _ := []

/-- A thread gets to another place. -/
def goto (c : StoreThreads ι θ) (process : ι) (thread : θ) (place : StoreThread) : StoreThreads ι θ :=
  { c with threads := Function.update c.threads process (Function.update (c.threads process) thread place) }

/-- The store of a process has changed. -/
def setStore (c : StoreThreads ι θ) (process : ι) (store : SegmentStore) : StoreThreads ι θ :=
  { c with store := Function.update c.store process store }

/-- A query for the rows of a chunk, whose positions are cached. -/
def select (c : StoreThreads ι θ) (process : ι) (chunk : List OffloadKey) : StoreThreads ι θ :=
  c.setStore process ((c.store process).cacheRows (c.db.selectBlocks chunk))

/-- A method returns or raises. -/
def leave (c : StoreThreads ι θ) (process : ι) (thread : θ) (result : StoreResult) : StoreThreads ι θ :=
  let plans := match result with
    | .plan plan => plan :: c.plans process
    | _ => c.plans process
  { c with plans := Function.update c.plans process plans }.goto process thread (.outside (some result))

/-- A method is called. With some arguments it returns or raises before it takes a lock. -/
def call (c : StoreThreads ι θ) (process : ι) (thread : θ) (operation : StoreOperation) : Option (StoreThreads ι θ) :=
  match operation with
  | .getLocations keys =>
    if keys = [] then some (c.leave process thread (.locations []))
    else some (c.goto process thread (.entering operation))
  | .write (.prepareStore keys blockIds) =>
    if keys.length ≠ blockIds.length then some (c.leave process thread .raised)
    else if keys = [] then some (c.leave process thread (.plan ⟨[]⟩))
    else some (c.goto process thread (.entering operation))
  | .write (.completeStore plan success) =>
    if plan ∉ c.plans process then none
    else if success = false ∨ plan.entries = [] then some (c.leave process thread .completed)
    else some (c.goto process thread (.entering operation))
  | .write (.delete keys) =>
    if keys = [] then some (c.leave process thread (.deleted ∅))
    else some (c.goto process thread (.entering operation))

/-- The next statement of a thread, by the place where it stands. -/
def act (c : StoreThreads ι θ) (process : ι) (thread : θ) :
    StoreThread → StatementAction → Option (StoreThreads ι θ)
  | .entering operation, .acquire =>
    if c.threadLock process = none then
      let c := { c with threadLock := Function.update c.threadLock process (some thread) }
      match operation with
      | .getLocations keys => some (c.goto process thread (.selecting keys ((c.store process).cachedLocations keys)
          (chunks ((c.store process).missingKeys keys))))
      | .write operation => some (c.goto process thread (.locking operation))
    else none
  | .locking operation, .lockFile =>
    if c.fileLock = none then
      let c := { c with fileLock := some process }
      match operation with
      | .prepareStore keys blockIds => some (c.goto process thread (.preparing keys blockIds
          ((c.store process).cachedLocations keys) (chunks ((c.store process).missingKeys keys))))
      | .completeStore plan _ => some (c.goto process thread (.indexing plan))
      | .delete keys => some (c.goto process thread (.finding keys [] (chunks keys.eraseDups)))
    else none
  | .locking _, .raise => some (c.goto process thread (.releasing .raised))
  -- `get_locations`
  | .selecting keys locations (chunk :: rest), .proceed =>
    some ((c.select process chunk).goto process thread
      (.selecting keys (locations.setAll (c.db.selectBlocks chunk)) rest))
  | .selecting keys locations [], .proceed =>
    some (c.goto process thread (.releasing (.locations (keys.map locations.get?))))
  | .selecting _ _ (_ :: _), .raise => some (c.goto process thread (.releasing .raised))
  -- `prepare_store`
  | .preparing keys blockIds locations (chunk :: rest), .proceed =>
    some ((c.select process chunk).goto process thread
      (.preparing keys blockIds (locations.setAll (c.db.selectBlocks chunk)) rest))
  | .preparing keys blockIds locations [], .proceed =>
    let unique := uniqueUnstored keys blockIds (keys.map fun key => (locations.get? key).isSome)
    if unique.items.isEmpty then some (c.goto process thread (.unlocking (.plan ⟨[]⟩)))
    else some (c.goto process thread (.allocating keys blockIds unique))
  | .preparing _ _ _ (_ :: _), .raise => some (c.goto process thread (.unlocking .raised))
  | .allocating keys blockIds unique, .proceed =>
    let (plan, rows) := c.db.reservation (c.store process).config unique
    some (c.goto process thread (.reserving keys blockIds plan rows))
  | .allocating .., .raise => some (c.goto process thread (.unlocking .raised))
  | .reserving _ _ plan rows, .commit _ =>
    some ({ c with db := c.db.setMetadata rows }.goto process thread (.unlocking (.plan plan)))
  | .reserving .., .raise => some (c.goto process thread (.unlocking .raised))
  -- `complete_store`
  | .indexing plan, .commit readBack =>
    let missing := chunks ((c.store process).missingKeys (plan.entries.map SegmentWrite.key))
    if ∃ read ∈ readBack, missing.length ≤ read then none
    else some ({ c with db := c.db.indexPlan (c.store process).config.blockSize plan }.goto process thread
      (.readingBack (readBack.elim missing missing.take) readBack.isSome))
  | .indexing _, .raise => some (c.goto process thread (.unlocking .raised))
  | .readingBack (chunk :: rest) raises, .proceed =>
    some ((c.select process chunk).goto process thread (.readingBack rest raises))
  | .readingBack [] false, .proceed => some (c.goto process thread (.unlocking .completed))
  | .readingBack [] true, .raise => some (c.goto process thread (.unlocking .raised))
  -- `delete`
  | .finding keys existing (chunk :: rest), .proceed =>
    some (c.goto process thread (.finding keys (existing ++ (c.db.selectBlocks chunk).map Prod.fst) rest))
  | .finding keys existing [], .proceed => some (c.goto process thread (.deleting keys existing))
  | .finding _ _ (_ :: _), .raise => some (c.goto process thread (.unlocking .raised))
  | .deleting keys existing, .commit _ =>
    some ({ c with db := c.db.deleteRows keys.eraseDups }.goto process thread (.forgetting existing))
  | .deleting .., .raise => some (c.goto process thread (.unlocking .raised))
  | .forgetting existing, .proceed =>
    some ((c.setStore process { c.store process with
      locationCache := (c.store process).locationCache.eraseAll existing }).goto process thread
        (.unlocking (.deleted existing.toFinset)))
  | .unlocking result, .unlockFile =>
    some ({ c with fileLock := none }.goto process thread (.releasing result))
  | .releasing result, .release =>
    some ({ c with threadLock := Function.update c.threadLock process none }.leave process thread result)
  | _, _ => none

/-- The locks of a killed process are free, and its threads are gone. -/
def crash (c : StoreThreads ι θ) (process : ι) (config : SegmentConfig) : StoreThreads ι θ where
  db := c.db
  store := Function.update c.store process (.init config)
  threadLock := Function.update c.threadLock process none
  fileLock := if c.fileLock = some process then none else c.fileLock
  threads := Function.update c.threads process fun _ => .outside none
  plans := Function.update c.plans process []

def step (c : StoreThreads ι θ) : StatementEvent ι θ → Option (StoreThreads ι θ)
  | .call process thread operation =>
    if (c.threads process thread).isOutside then c.call process thread operation else none
  | .act process thread action => c.act process thread (c.threads process thread) action
  | .crash process config => some (c.crash process config)

/-! ## What a statement does -/

/-- The thread lock of a process is taken or released. -/
def setThreadLock (c : StoreThreads ι θ) (process : ι) (holder : Option θ) : StoreThreads ι θ :=
  { c with threadLock := Function.update c.threadLock process holder }

/-- The statements of a thread that change neither the tables nor a lock nor the store, and where they lead. -/
inductive Quiet (c : StoreThreads ι θ) (process : ι) : StoreThread → StatementAction → StoreThread → Prop
  | lockRaised {operation : WriteOperation} : Quiet c process (.locking operation) .raise (.releasing .raised)
  | selected {keys : List OffloadKey} {locations : Dict OffloadKey SegmentLocation} :
      Quiet c process (.selecting keys locations []) .proceed (.releasing (.locations (keys.map locations.get?)))
  | selectRaised {keys chunk : List OffloadKey} {locations : Dict OffloadKey SegmentLocation}
      {rest : List (List OffloadKey)} :
      Quiet c process (.selecting keys locations (chunk :: rest)) .raise (.releasing .raised)
  | prepared {keys : List OffloadKey} {blockIds : List ℕ} {locations : Dict OffloadKey SegmentLocation}
      (unstored : (uniqueUnstored keys blockIds (keys.map fun key => (locations.get? key).isSome)).items ≠ []) :
      Quiet c process (.preparing keys blockIds locations []) .proceed
        (.allocating keys blockIds (uniqueUnstored keys blockIds (keys.map fun key => (locations.get? key).isSome)))
  | allocated {keys : List OffloadKey} {blockIds : List ℕ} {unique : Dict OffloadKey ℕ} :
      Quiet c process (.allocating keys blockIds unique) .proceed
        (.reserving keys blockIds (c.db.reservation (c.store process).config unique).1
          (c.db.reservation (c.store process).config unique).2)
  | indexRaised {plan : SegmentStorePlan} : Quiet c process (.indexing plan) .raise (.unlocking .raised)
  | readBack : Quiet c process (.readingBack [] false) .proceed (.unlocking .completed)
  | readBackRaised : Quiet c process (.readingBack [] true) .raise (.unlocking .raised)
  | finding {keys existing chunk : List OffloadKey} {rest : List (List OffloadKey)} :
      Quiet c process (.finding keys existing (chunk :: rest)) .proceed
        (.finding keys (existing ++ (c.db.selectBlocks chunk).map Prod.fst) rest)
  | found {keys existing : List OffloadKey} :
      Quiet c process (.finding keys existing []) .proceed (.deleting keys existing)
  | findRaised {keys existing chunk : List OffloadKey} {rest : List (List OffloadKey)} :
      Quiet c process (.finding keys existing (chunk :: rest)) .raise (.unlocking .raised)
  | deleteRaised {keys existing : List OffloadKey} :
      Quiet c process (.deleting keys existing) .raise (.unlocking .raised)

/-- The statements of a thread, one constructor for each kind. -/
inductive Acts (c : StoreThreads ι θ) (process : ι) (thread : θ) :
    StoreThread → StatementAction → StoreThreads ι θ → Prop
  | acquireRead {keys : List OffloadKey} (free : c.threadLock process = none) :
      Acts c process thread (.entering (.getLocations keys)) .acquire
        ((c.setThreadLock process (some thread)).goto process thread
          (.selecting keys ((c.store process).cachedLocations keys) (chunks ((c.store process).missingKeys keys))))
  | acquireWrite {operation : WriteOperation} (free : c.threadLock process = none) :
      Acts c process thread (.entering (.write operation)) .acquire
        ((c.setThreadLock process (some thread)).goto process thread (.locking operation))
  | lockPrepare {keys : List OffloadKey} {blockIds : List ℕ} (free : c.fileLock = none) :
      Acts c process thread (.locking (.prepareStore keys blockIds)) .lockFile
        ({ c with fileLock := some process }.goto process thread (.preparing keys blockIds
          ((c.store process).cachedLocations keys) (chunks ((c.store process).missingKeys keys))))
  | lockComplete {plan : SegmentStorePlan} {success : Bool} (free : c.fileLock = none) :
      Acts c process thread (.locking (.completeStore plan success)) .lockFile
        ({ c with fileLock := some process }.goto process thread (.indexing plan))
  | lockDelete {keys : List OffloadKey} (free : c.fileLock = none) :
      Acts c process thread (.locking (.delete keys)) .lockFile
        ({ c with fileLock := some process }.goto process thread (.finding keys [] (chunks keys.eraseDups)))
  | quiet {source target : StoreThread} {action : StatementAction} (moved : Quiet c process source action target) :
      Acts c process thread source action (c.goto process thread target)
  | select {keys chunk : List OffloadKey} {locations : Dict OffloadKey SegmentLocation}
      {rest : List (List OffloadKey)} :
      Acts c process thread (.selecting keys locations (chunk :: rest)) .proceed
        ((c.select process chunk).goto process thread
          (.selecting keys (locations.setAll (c.db.selectBlocks chunk)) rest))
  | prepare {keys chunk : List OffloadKey} {blockIds : List ℕ} {locations : Dict OffloadKey SegmentLocation}
      {rest : List (List OffloadKey)} :
      Acts c process thread (.preparing keys blockIds locations (chunk :: rest)) .proceed
        ((c.select process chunk).goto process thread
          (.preparing keys blockIds (locations.setAll (c.db.selectBlocks chunk)) rest))
  | nothingToPrepare {keys : List OffloadKey} {blockIds : List ℕ} {locations : Dict OffloadKey SegmentLocation}
      (stored : (uniqueUnstored keys blockIds (keys.map fun key => (locations.get? key).isSome)).items = []) :
      Acts c process thread (.preparing keys blockIds locations []) .proceed
        (c.goto process thread (.unlocking (.plan ⟨[]⟩)))
  | prepareRaised {keys chunk : List OffloadKey} {blockIds : List ℕ} {locations : Dict OffloadKey SegmentLocation}
      {rest : List (List OffloadKey)} :
      Acts c process thread (.preparing keys blockIds locations (chunk :: rest)) .raise
        (c.goto process thread (.unlocking .raised))
  | allocateRaised {keys : List OffloadKey} {blockIds : List ℕ} {unique : Dict OffloadKey ℕ} :
      Acts c process thread (.allocating keys blockIds unique) .raise
        (c.goto process thread (.unlocking .raised))
  | reserveRaised {keys : List OffloadKey} {blockIds : List ℕ} {plan : SegmentStorePlan}
      {rows : List (MetadataName × ℕ)} :
      Acts c process thread (.reserving keys blockIds plan rows) .raise
        (c.goto process thread (.unlocking .raised))
  | reserve {keys : List OffloadKey} {blockIds : List ℕ} {plan : SegmentStorePlan} {rows : List (MetadataName × ℕ)}
      {unused : Option ℕ} :
      Acts c process thread (.reserving keys blockIds plan rows) (.commit unused)
        ({ c with db := c.db.setMetadata rows }.goto process thread (.unlocking (.plan plan)))
  | index {plan : SegmentStorePlan} :
      Acts c process thread (.indexing plan) (.commit none)
        ({ c with db := c.db.indexPlan (c.store process).config.blockSize plan }.goto process thread
          (.readingBack (chunks ((c.store process).missingKeys (plan.entries.map SegmentWrite.key))) false))
  | indexThenRaise {plan : SegmentStorePlan} {read : ℕ}
      (raises : read < (chunks ((c.store process).missingKeys (plan.entries.map SegmentWrite.key))).length) :
      Acts c process thread (.indexing plan) (.commit (some read))
        ({ c with db := c.db.indexPlan (c.store process).config.blockSize plan }.goto process thread
          (.readingBack ((chunks ((c.store process).missingKeys (plan.entries.map SegmentWrite.key))).take read) true))
  | readBack {chunk : List OffloadKey} {rest : List (List OffloadKey)} {raises : Bool} :
      Acts c process thread (.readingBack (chunk :: rest) raises) .proceed
        ((c.select process chunk).goto process thread (.readingBack rest raises))
  | delete {keys existing : List OffloadKey} {unused : Option ℕ} :
      Acts c process thread (.deleting keys existing) (.commit unused)
        ({ c with db := c.db.deleteRows keys.eraseDups }.goto process thread (.forgetting existing))
  | forget {existing : List OffloadKey} :
      Acts c process thread (.forgetting existing) .proceed
        ((c.setStore process { c.store process with
          locationCache := (c.store process).locationCache.eraseAll existing }).goto process thread
            (.unlocking (.deleted existing.toFinset)))
  | unlockFile {result : StoreResult} :
      Acts c process thread (.unlocking result) .unlockFile
        ({ c with fileLock := none }.goto process thread (.releasing result))
  | release {result : StoreResult} :
      Acts c process thread (.releasing result) .release
        ((c.setThreadLock process none).leave process thread result)

theorem acts_of_act {c d : StoreThreads ι θ} {process : ι} {thread : θ} {place : StoreThread}
    {action : StatementAction} (acted : c.act process thread place action = some d) :
    Acts c process thread place action d := by
  unfold act at acted
  split at acted
  case h_1 operation =>
    split at acted
    · next free =>
      cases operation with
      | getLocations keys =>
        cases acted
        exact .acquireRead free
      | write operation =>
        cases acted
        exact .acquireWrite free
    · cases acted
  case h_2 operation =>
    split at acted
    · next free =>
      cases operation with
      | prepareStore keys blockIds =>
        cases acted
        exact .lockPrepare free
      | completeStore plan success =>
        cases acted
        exact .lockComplete free
      | delete keys =>
        cases acted
        exact .lockDelete free
    · cases acted
  case h_8 keys blockIds locations =>
    dsimp only at acted
    split at acted
    · next stored =>
      cases acted
      exact .nothingToPrepare (by simpa using stored)
    · next unstored =>
      cases acted
      exact .quiet (.prepared (by simpa using unstored))
  case h_14 plan readBack =>
    dsimp only at acted
    split at acted
    · cases acted
    · next inside =>
      cases acted
      cases readBack with
      | none => exact .index
      | some read => exact .indexThenRaise (by simpa using inside)
  case h_27 => cases acted
  all_goals
    cases acted
    first
      | exact .select
      | exact .prepare
      | exact .prepareRaised
      | exact .allocateRaised
      | exact .reserveRaised
      | exact .reserve
      | exact .readBack
      | exact .delete
      | exact .forget
      | exact .unlockFile
      | exact .release
      | exact .quiet (by constructor)

end StoreThreads

end KVTiering.Model
