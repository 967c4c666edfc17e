import KVTiering.Machine.Simulation
import KVTiering.Soundness.PoolTasks

/-! # Tasks are taken in turn

The tasks of each queue are taken in the order in which they were queued, and a worker that takes a task takes it
from its own queue unless that one is empty. So neither queue starves behind the other: what is ahead of a task in
its queue is all that the workers of that queue take before it, and the other workers only help.
-/

namespace KVTiering.Soundness.ThreadPool

open Model

variable {τ κ : Type} {nReadThreads nWriteThreads : ℕ}

/-- The load queue or the store queue. -/
def queueOf (p : Pool τ κ) : Bool → List (τ × ℕ)
  | true => p.loadQ
  | false => p.storeQ

/-- The tasks that an `enqueue` puts on a queue. -/
def put (load : Bool) (p : Pool τ κ) : PoolEvent τ κ → List (τ × ℕ)
  | .enqueueLoad _ _ tasks => if load then tasks.map fun task => (task, p.jobs.length) else []
  | .enqueueStore _ _ tasks _ => if load then [] else tasks.map fun task => (task, p.jobs.length)
  | _ => []

/-- What a worker takes from a queue. -/
def popped (load : Bool) (p : Pool τ κ) (loadPriority : Bool) : List (τ × ℕ) :=
  if loadPriority = load ∨ queueOf p loadPriority = [] then (queueOf p load).take 1 else []

/-- The task that a step takes from a queue. -/
def taken (load : Bool) (p : Pool τ κ) : PoolEvent τ κ → List (τ × ℕ)
  | .worker index .take => (p.workers[index]?).elim [] fun worker => popped load p worker.loadPriority
  | _ => []

/-- A worker takes a task. -/
def isTake : PoolEvent τ κ → Bool
  | .worker _ .take => true
  | _ => false

/-- A worker of one of the queues takes a task; those of the load queue are the first ones. -/
def takes (nReadThreads : ℕ) (load : Bool) : PoolEvent τ κ → Bool
  | .worker index .take => decide (index < nReadThreads) = load
  | _ => false

theorem pop_spec {p next : Pool τ κ} {loadPriority : Bool} {item : τ × ℕ}
    (pops : p.pop loadPriority = some (item, next)) (load : Bool) :
    queueOf p load = popped load p loadPriority ++ queueOf next load := by
  unfold Pool.pop at pops
  split at pops <;> cases pops <;> cases load <;> simp [popped, queueOf, *]

/-- A step puts tasks at the end of a queue or takes one from its front. -/
theorem queue_step {p next : Pool τ κ} {event : PoolEvent τ κ} (stepped : p.step event = some next)
    (going : event ≠ .shutdown) (load : Bool) :
    queueOf p load ++ put load p event = taken load p event ++ queueOf next load := by
  cases event with
  | enqueueLoad jobId nTasks tasks =>
    cases stepped
    cases load <;> simp [queueOf, put, taken, Pool.enqueueLoad, Pool.openJob]
  | enqueueStore jobId nTasks tasks onComplete =>
    cases stepped
    cases load <;> simp [queueOf, put, taken, Pool.enqueueStore, Pool.openJob]
  | getFinished job success =>
    rw [(Pool.getFinished_cases stepped).2]
    cases load <;> simp [queueOf, put, taken]
  | shutdown => exact absurd rfl going
  | worker index action =>
    obtain ⟨before, after, loadPriority, source, target, middle, workers, rfl, moves, rfl⟩ :=
      Pool.workerStep_cases stepped
    have found : p.workers[before.length]? = some ⟨loadPriority, source⟩ := by simp [workers]
    cases moves with
    | take _ pops =>
      have spec := pop_spec pops load
      simp only [put, taken, found, Option.elim_some, List.append_nil]
      cases load <;> exact spec
    | _ => cases load <;> simp [queueOf, put, taken]

/-- The tasks of a queue are taken in the order in which they were queued. -/
theorem queue_run {p q : Pool τ κ} {events : List (PoolEvent τ κ)} (run : Run (Steps Pool.step) p events q)
    (going : .shutdown ∉ events) (load : Bool) :
    queueOf p load ++ emitted Pool.step (put load) p events =
      emitted Pool.step (taken load) p events ++ queueOf q load := by
  induction run with
  | nil => simp [emitted]
  | @snoc events middle final event before moved ih =>
    rw [List.mem_append, List.mem_singleton, not_or] at going
    rw [emitted_append before, emitted_append before, emitted_single moved, emitted_single moved, ← List.append_assoc,
      ih going.1, List.append_assoc, queue_step moved (Ne.symm going.2), List.append_assoc]

/-- The workers keep their priorities. -/
theorem loadPriority_of_run {events : List (PoolEvent τ κ)} {p : Pool τ κ}
    (run : Run (Steps Pool.step) (.init nReadThreads nWriteThreads) events p) (index : ℕ) :
    (p.workers[index]?).map Worker.loadPriority =
      if index < nReadThreads + nWriteThreads then some (decide (index < nReadThreads)) else none := by
  apply run.preserves fun p : Pool τ κ => (p.workers[index]?).map Worker.loadPriority =
    if index < nReadThreads + nWriteThreads then some (decide (index < nReadThreads)) else none
  · simp only [Pool.init, List.getElem?_append, List.getElem?_replicate, List.length_replicate]
    split
    · next first => simp [first, Nat.lt_add_right]
    · next other =>
      split
      · next second => simp [other, show index < nReadThreads + nWriteThreads by omega]
      · next neither => simp [show ¬ index < nReadThreads + nWriteThreads by omega]
  · intro source event target _ kept moved
    rw [← kept]
    cases event with
    | enqueueLoad | enqueueStore => rw [(enqueue_spec moved rfl).2.2.1]
    | getFinished => rw [(Pool.getFinished_cases moved).2]
    | shutdown =>
      cases moved
      rfl
    | worker acting action =>
      obtain ⟨before, after, loadPriority, state, next, middle, workers, rfl, _, rfl⟩ := Pool.workerStep_cases moved
      simp only [workers, List.getElem?_append, List.getElem?_cons]
      split
      · rfl
      · split <;> rfl

/-- A worker that takes a task takes one from its own queue if there is one. -/
theorem length_taken_own {p next : Pool τ κ} {events : List (PoolEvent τ κ)} {load : Bool} {event : PoolEvent τ κ}
    (run : Run (Steps Pool.step) (.init nReadThreads nWriteThreads) events p) (stepped : p.step event = some next)
    (takes : takes nReadThreads load event = true) (queued : queueOf p load ≠ []) :
    (taken load p event).length = 1 := by
  cases event with
  | worker index action =>
    cases action with
    | take =>
      obtain ⟨before, after, loadPriority, source, target, middle, workers, rfl, _, _⟩ := Pool.workerStep_cases stepped
      have found : p.workers[before.length]? = some ⟨loadPriority, source⟩ := by simp [workers]
      have priority := loadPriority_of_run run before.length
      rw [found, Option.map_some] at priority
      split at priority
      · obtain ⟨item, rest, same⟩ := List.exists_cons_of_ne_nil queued
        have own : loadPriority = load := (Option.some.inj priority).trans (of_decide_eq_true takes)
        simp only [taken, found, Option.elim_some, popped, own, true_or, if_true, same, List.take_succ_cons,
          List.take_zero, List.length_singleton]
      · cases priority
    | _ => cases takes
  | _ => cases takes

/-- No take comes back without a task, and none comes back with two. -/
theorem length_taken {p next : Pool τ κ} {event : PoolEvent τ κ} (stepped : p.step event = some next) :
    (taken true p event).length + (taken false p event).length =
      if isTake event = true then 1 else 0 := by
  cases event with
  | worker index action =>
    cases action with
    | take =>
      obtain ⟨before, after, loadPriority, source, target, middle, workers, rfl, moves, _⟩ :=
        Pool.workerStep_cases stepped
      have found : p.workers[before.length]? = some ⟨loadPriority, source⟩ := by simp [workers]
      cases moves with
      | take _ pops =>
        unfold Pool.pop at pops
        simp only [taken, found, Option.elim_some, isTake, if_true]
        split at pops <;> cases pops <;> simp [popped, queueOf, *]
    | _ => rfl
  | _ => rfl

/-- A queue of which its own workers have taken so many times has lost at least as many of its first tasks. -/
theorem served_of_run {past events : List (PoolEvent τ κ)} {p q : Pool τ κ}
    (reached : Run (Steps Pool.step) (.init nReadThreads nWriteThreads) past p)
    (run : Run (Steps Pool.step) p events q) (going : .shutdown ∉ events) (load : Bool) :
    min (queueOf p load).length (events.countP (takes nReadThreads load)) ≤
      (emitted Pool.step (taken load) p events).length := by
  induction run with
  | nil => simp
  | @snoc events middle final event before moved ih =>
    rw [List.mem_append, List.mem_singleton, not_or] at going
    have earlier := ih going.1
    rw [emitted_append before, emitted_single moved, List.countP_append, List.countP_singleton, List.length_append]
    split
    · next own =>
      by_cases behind : (queueOf p load).length ≤ (emitted Pool.step (taken load) p events).length
      · omega
      · -- a task that was there at first is still queued
        have queued : queueOf middle load ≠ [] := by
          intro empty
          have sizes := congrArg List.length (queue_run before going.1 load)
          rw [empty, List.append_nil, List.length_append] at sizes
          omega
        have one := length_taken_own (reached.append before) moved own queued
        omega
    · omega

/-- Neither queue starves. From any reachable state on and until a shutdown, the tasks of each queue are taken in the
order in which they were queued; every take gets one task; and of the tasks queued at first the i-th of a queue has
been taken once the workers of that queue have taken more than i times, however many tasks the other queue has. -/
theorem queues_served {past events : List (PoolEvent τ κ)} {p q : Pool τ κ}
    (reached : Run (Steps Pool.step) (.init nReadThreads nWriteThreads) past p)
    (run : Run (Steps Pool.step) p events q) (going : .shutdown ∉ events) :
    (∀ load, queueOf p load ++ emitted Pool.step (put load) p events =
        emitted Pool.step (taken load) p events ++ queueOf q load) ∧
      (emitted Pool.step (taken true) p events).length + (emitted Pool.step (taken false) p events).length =
        events.countP isTake ∧
      ∀ load i, i < (queueOf p load).length → i < events.countP (takes nReadThreads load) →
        (emitted Pool.step (taken load) p events)[i]? = (queueOf p load)[i]? := by
  have order := queue_run run going
  refine ⟨order, ?_, fun load i inside served => ?_⟩
  · clear order going
    induction run with
    | nil => rfl
    | @snoc events middle final event before moved ih =>
      have last := length_taken moved
      rw [emitted_append before, emitted_append before, emitted_single moved, emitted_single moved, List.length_append,
        List.length_append, List.countP_append, List.countP_singleton]
      omega
  · have enough := served_of_run reached run going load
    have front := congrArg (fun items => items[i]?) (order load)
    simp only [List.getElem?_append] at front
    rw [if_pos inside, if_pos (by omega)] at front
    exact front.symm

/-- Two loads and a store are queued. -/
def queuedTape : List (PoolEvent ℕ Unit) := [.enqueueLoad 7 2 [10, 11], .enqueueStore 8 1 [20] none]

/-- The worker of the load queue takes a load, the other one the store, and the first one the second load. -/
def takingTape : List (PoolEvent ℕ Unit) :=
  [.worker 0 .take, .worker 1 .take, .worker 0 (.taskEnded 0 true), .worker 0 (.taskDone 0 true), .worker 0 .take]

theorem queues_served_mixed : ∃ p q : Pool ℕ Unit, Run (Steps Pool.step) (.init 1 1) queuedTape p ∧
    Run (Steps Pool.step) p takingTape q ∧
    (emitted Pool.step (taken true) p takingTape)[1]? = some (11, 0) := by
  have executed : (replay Pool.step (.init 1 1) queuedTape).map (fun p =>
      (p.loadQ, (replay Pool.step p takingTape).isSome)) = some ([(10, 0), (11, 0)], true) := by decide
  obtain ⟨p, replayed, facts⟩ := Option.map_eq_some_iff.mp executed
  obtain ⟨loads, ends⟩ := Prod.mk.inj facts
  obtain ⟨q, later⟩ := Option.isSome_iff_exists.mp ends
  have run := Run.of_replay replayed
  have taking := Run.of_replay later
  obtain ⟨-, -, served⟩ := queues_served run taking (by simp [takingTape])
  have second := served true 1 (by simp [queueOf, loads]) (by decide)
  refine ⟨p, q, run, taking, second.trans ?_⟩
  simp [queueOf, loads]

end KVTiering.Soundness.ThreadPool
