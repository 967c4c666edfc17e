import KVTiering.Model.ThreadPool
import Mathlib.Data.Finset.Card

/-! # Waiting on the pool's condition

The workers and the thread that owns the pool wait on one condition variable. A thread that finds its predicate
false goes to sleep before it gives the lock back, and stays asleep until a `notify` picks it; then it takes the
lock and looks again. A step of the pool that holds the lock says which of the sleeping threads it wakes: as
many as it is asked for, if there are so many, and any of them. The owner of the pool is one thread, so it
does nothing else while it is in `wait_idle`.
-/

namespace KVTiering.Model

inductive PoolThread where
  | worker (index : ℕ)
  | caller
deriving DecidableEq

/-- Where the thread that owns the pool stands. -/
inductive CallerState where
  /-- not in `wait_idle` -/
  | outside
  /-- in `wait_idle`, before it has looked at `_inflight_jobs` -/
  | entering
  /-- in `_condition.wait()` -/
  | parked
deriving DecidableEq

structure ConditionPool (τ κ : Type) where
  pool : Pool τ κ
  caller : CallerState
  /-- the threads in `_condition.wait()` that have not been notified -/
  waiters : Finset PoolThread

inductive ConditionEvent (τ κ : Type) where
  /-- a step of the pool, and the threads that its `notify` wakes -/
  | pool (event : PoolEvent τ κ) (woken : Finset PoolThread)
  /-- the owner calls `wait_idle` -/
  | waitIdle
  /-- the owner has the lock, for the first time or again, and evaluates its predicate -/
  | checkIdle
  /-- the predicate of the worker is false -/
  | park (index : ℕ)

/-- Whether a worker takes the step; the others are calls of the owner. -/
def ConditionEvent.ofWorker {τ κ : Type} : ConditionEvent τ κ → Bool
  | .pool (.worker _ _) _ => true
  | .park _ => true
  | _ => false

/-- The thread that takes the step. -/
def PoolEvent.thread {τ κ : Type} : PoolEvent τ κ → PoolThread
  | .worker index _ => .worker index
  | _ => .caller

/-- `notify(n)` wakes some of the waiting threads, `n` of them unless there are fewer. -/
def Notifies (waiters : Finset PoolThread) (n : ℕ) (woken : Finset PoolThread) : Prop :=
  woken ⊆ waiters ∧ min n waiters.card ≤ woken.card ∧ woken.card ≤ n

instance (waiters : Finset PoolThread) (n : ℕ) (woken : Finset PoolThread) : Decidable (Notifies waiters n woken) :=
  inferInstanceAs (Decidable (_ ∧ _ ∧ _))

namespace ConditionPool

variable {τ κ : Type}

def init (nReadThreads nWriteThreads : ℕ) : ConditionPool τ κ := ⟨.init nReadThreads nWriteThreads, .outside, ∅⟩

/-- The thread is not held up by the condition. -/
def free (s : ConditionPool τ κ) : PoolThread → Bool
  | .worker index => .worker index ∉ s.waiters
  | .caller => s.caller = .outside

/-- The argument of `notify`, which is the number of waiting threads for `notify_all`. -/
def notified (s : ConditionPool τ κ) : PoolEvent τ κ → ℕ
  | .enqueueLoad _ nTasks _ => nTasks
  | .enqueueStore _ nTasks _ _ => nTasks
  | .shutdown => s.waiters.card
  | .worker _ (.reported _ _) => s.waiters.card
  | _ => 0

/-- `wait_idle` with the lock: it returns, or goes to sleep. -/
def checkIdle (s : ConditionPool τ κ) : ConditionPool τ κ :=
  if s.pool.inflightJobs = 0 then { s with caller := .outside }
  else { s with caller := .parked, waiters := insert .caller s.waiters }

/-- A worker at the top of its loop, with the lock and nothing to do, goes to sleep. -/
def park (s : ConditionPool τ κ) (index : ℕ) : Option (ConditionPool τ κ) :=
  match s.pool.workers[index]?, s.pool.stop, s.pool.loadQ, s.pool.storeQ with
  | some ⟨_, .waiting⟩, false, [], [] => some { s with waiters := insert (.worker index) s.waiters }
  | _, _, _, _ => none

def step (s : ConditionPool τ κ) : ConditionEvent τ κ → Option (ConditionPool τ κ)
  | .pool event woken =>
    if s.free event.thread ∧ Notifies s.waiters (s.notified event) woken then
      (s.pool.step event).map fun pool => { s with pool := pool, waiters := s.waiters \ woken }
    else none
  | .waitIdle => if s.caller = .outside then some { s with caller := .entering } else none
  | .checkIdle =>
    if s.caller = .entering ∨ s.caller = .parked ∧ .caller ∉ s.waiters then some s.checkIdle else none
  | .park index => if s.free (.worker index) then s.park index else none

/-! ## What a step does -/

/-- The steps, one constructor for each kind. -/
inductive Moves (s : ConditionPool τ κ) : ConditionEvent τ κ → ConditionPool τ κ → Prop
  | pool {event : PoolEvent τ κ} {woken : Finset PoolThread} {pool : Pool τ κ} (free : s.free event.thread = true)
      (notifies : Notifies s.waiters (s.notified event) woken) (moved : s.pool.step event = some pool) :
      Moves s (.pool event woken) { s with pool := pool, waiters := s.waiters \ woken }
  | waitIdle (outside : s.caller = .outside) : Moves s .waitIdle { s with caller := .entering }
  | returned (up : s.caller = .entering ∨ s.caller = .parked ∧ .caller ∉ s.waiters)
      (idle : s.pool.inflightJobs = 0) : Moves s .checkIdle { s with caller := .outside }
  | parkCaller (up : s.caller = .entering ∨ s.caller = .parked ∧ .caller ∉ s.waiters)
      (busy : s.pool.inflightJobs ≠ 0) :
      Moves s .checkIdle { s with caller := .parked, waiters := insert .caller s.waiters }
  | park {index : ℕ} {loadPriority : Bool} (up : s.free (.worker index) = true)
      (found : s.pool.workers[index]? = some ⟨loadPriority, .waiting⟩) (going : s.pool.stop = false)
      (loadQ : s.pool.loadQ = []) (storeQ : s.pool.storeQ = []) :
      Moves s (.park index) { s with waiters := insert (.worker index) s.waiters }

theorem moves_of_step {s next : ConditionPool τ κ} {event : ConditionEvent τ κ} (stepped : s.step event = some next) :
    Moves s event next := by
  unfold step at stepped
  split at stepped
  case h_1 =>
    split at stepped
    · next enabled =>
      obtain ⟨pool, moved, rfl⟩ := Option.map_eq_some_iff.mp stepped
      exact .pool enabled.1 enabled.2 moved
    · cases stepped
  case h_2 =>
    split at stepped
    · next outside =>
      cases stepped
      exact .waitIdle outside
    · cases stepped
  case h_3 =>
    split at stepped
    · next up =>
      cases stepped
      unfold checkIdle
      split
      · next idle => exact .returned up idle
      · next busy => exact .parkCaller up busy
    · cases stepped
  case h_4 =>
    split at stepped
    · next up =>
      unfold park at stepped
      split at stepped
      · next found going loadQ storeQ =>
        cases stepped
        exact .park up found going loadQ storeQ
      · cases stepped
    · cases stepped

end ConditionPool

end KVTiering.Model
