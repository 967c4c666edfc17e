import KVTiering.Model.AsyncLookup
import KVTiering.Model.ConditionPool

/-! # Shutting the tier down

The thread that owns the tier ends the other threads before it closes what they use: it tells the lookup worker to
end and joins it, stops the pool and joins the threads of the pool, and closes the segment store last. Until then the
lookup worker looks for keys in the store, and the threads of the pool read, write and index segments. From inside
`shutdown` the owner makes no other call.
-/

namespace KVTiering.Model

/-- Where the owner stands. -/
inductive OwnerState where
  | running
  /-- in `_lookup_manager.shutdown()`, in its `join` -/
  | joiningLookups
  /-- in `_pool.shutdown(wait=True)`, in its `join`s -/
  | joiningThreads
  /-- `shutdown` has returned -/
  | closed
deriving DecidableEq

/-- The threads of a `FileSystemTierManager`. -/
structure TierThreads (τ κ : Type) where
  lookupManager : AsyncLookupManager
  pool : ConditionPool τ κ
  owner : OwnerState

inductive ThreadsEvent (τ κ : Type) where
  | lookup (event : LookupEvent)
  | pool (event : ConditionEvent τ κ)
  /-- the owner calls `shutdown`, and the lookup worker is told to end -/
  | shutdown
  /-- the lookup worker is joined, and the pool is stopped -/
  | stopPool (woken : Finset PoolThread)
  /-- the threads of the pool are joined, and the segment store is closed, if there is one -/
  | close

/-- What the owner calls in the lookup manager outside `shutdown`. -/
def LookupEvent.ofOwner : LookupEvent → Bool
  | .postSentinel => false
  | event => !event.ofWorker

/-- What the owner calls in the pool outside `shutdown`. -/
def ConditionEvent.ofOwner {τ κ : Type} : ConditionEvent τ κ → Bool
  | .pool .shutdown _ => false
  | event => !event.ofWorker

/-- The `join`s of `shutdown` return. -/
def Pool.joined {τ κ : Type} (p : Pool τ κ) : Bool :=
  p.workers.all fun worker => match worker.state with
    | .exited => true
    | _ => false

namespace TierThreads

variable {τ κ : Type}

def init (nReadThreads nWriteThreads : ℕ) : TierThreads τ κ := ⟨.init, .init nReadThreads nWriteThreads, .running⟩

/-- The owner is neither in `shutdown` nor in `wait_idle`. -/
def calling (s : TierThreads τ κ) : Bool := s.owner = .running && s.pool.caller = .outside

def step (s : TierThreads τ κ) : ThreadsEvent τ κ → Option (TierThreads τ κ)
  | .lookup event =>
    if event.ofWorker || event.ofOwner && s.calling then
      (s.lookupManager.step event).map fun lookupManager => { s with lookupManager := lookupManager }
    else none
  | .pool event =>
    if event.ofWorker || event.ofOwner && s.owner = .running then
      (s.pool.step event).map fun pool => { s with pool := pool }
    else none
  | .shutdown =>
    if s.calling then some { s with lookupManager := s.lookupManager.postSentinel, owner := .joiningLookups }
    else none
  | .stopPool woken =>
    match s.owner, s.lookupManager.worker with
    | .joiningLookups, .stopped =>
      (s.pool.step (.pool .shutdown woken)).map fun pool => { s with pool := pool, owner := .joiningThreads }
    | _, _ => none
  | .close => if s.owner = .joiningThreads ∧ s.pool.pool.joined then some { s with owner := .closed } else none

/-! ## What a step does -/

/-- The steps, one constructor for each kind. -/
inductive Moves (s : TierThreads τ κ) : ThreadsEvent τ κ → TierThreads τ κ → Prop
  | lookup {event : LookupEvent} {lookupManager : AsyncLookupManager}
      (allowed : event.ofWorker = true ∨ event.ofOwner = true ∧ s.calling = true)
      (moved : s.lookupManager.step event = some lookupManager) :
      Moves s (.lookup event) { s with lookupManager := lookupManager }
  | pool {event : ConditionEvent τ κ} {pool : ConditionPool τ κ}
      (allowed : event.ofWorker = true ∨ event.ofOwner = true ∧ s.owner = .running)
      (moved : s.pool.step event = some pool) : Moves s (.pool event) { s with pool := pool }
  | shutdown (calling : s.calling = true) :
      Moves s .shutdown { s with lookupManager := s.lookupManager.postSentinel, owner := .joiningLookups }
  | stopPool {woken : Finset PoolThread} {pool : ConditionPool τ κ} (joining : s.owner = .joiningLookups)
      (stopped : s.lookupManager.worker = .stopped) (moved : s.pool.step (.pool .shutdown woken) = some pool) :
      Moves s (.stopPool woken) { s with pool := pool, owner := .joiningThreads }
  | close (joining : s.owner = .joiningThreads) (joined : s.pool.pool.joined = true) :
      Moves s .close { s with owner := .closed }

theorem moves_of_step {s next : TierThreads τ κ} {event : ThreadsEvent τ κ} (stepped : s.step event = some next) :
    Moves s event next := by
  unfold step at stepped
  split at stepped
  case h_1 =>
    split at stepped
    · next allowed =>
      obtain ⟨lookupManager, moved, rfl⟩ := Option.map_eq_some_iff.mp stepped
      exact .lookup (by simpa using allowed) moved
    · cases stepped
  case h_2 =>
    split at stepped
    · next allowed =>
      obtain ⟨pool, moved, rfl⟩ := Option.map_eq_some_iff.mp stepped
      exact .pool (by simpa using allowed) moved
    · cases stepped
  case h_3 =>
    split at stepped
    · next calling =>
      cases stepped
      exact .shutdown calling
    · cases stepped
  case h_4 =>
    split at stepped
    · next joining stopped =>
      obtain ⟨pool, moved, rfl⟩ := Option.map_eq_some_iff.mp stepped
      exact .stopPool joining stopped moved
    · cases stepped
  case h_5 =>
    split at stepped
    · next joining =>
      cases stepped
      exact .close joining.1 joining.2
    · cases stepped

end TierThreads

end KVTiering.Model
