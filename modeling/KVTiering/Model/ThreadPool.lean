import KVTiering.Machine.Run
import Mathlib.Algebra.Order.Ring.Int

/-! # The dual-queue thread pool

Workers draw tasks from a load queue and a store queue, load-priority workers from the load queue
first. A job is complete when the last of its tasks has been counted in its `JobState`; the worker that
counts it calls the job's callback and then puts the result on the finished queue. The steps below are
the atomic pieces of the source between taking and releasing a lock, with the places between them as
worker states. What a task does is opaque here: it may work for any number of steps, and return or
raise. Results carry the reference of the `JobState` instead of the caller's identifier, so that jobs
submitted under one identifier stay apart.
-/

namespace KVTiering.Model

/-- `JobState`: what remains of a job, and the callback for its end. -/
structure JobState (κ : Type) where
  jobId : ℕ
  nTasks : ℕ
  completed : ℕ
  success : Bool
  onComplete : Option κ

/-- The locked section of `task_done`: count the task, and return whether it was the last. -/
def JobState.taskDone {κ : Type} (state : JobState κ) (success : Bool) : JobState κ × Bool :=
  let state := { state with completed := state.completed + 1, success := state.success && success }
  (state, state.completed = state.nTasks)

/-- Where a worker stands in `_worker`. -/
inductive WorkerState (τ : Type) where
  /-- at the top of the loop, waiting for a task -/
  | waiting
  | running (task : τ) (job : ℕ)
  /-- the task has raised, and its own handlers are running -/
  | unwinding (task : τ) (job : ℕ)
  /-- the task is over, `task_done` has not counted it yet -/
  | ended (job : ℕ) (success : Bool)
  /-- the job is complete, `on_complete` has not been called yet -/
  | completing (job : ℕ) (success : Bool)
  | inCallback (job : ℕ) (success : Bool)
  /-- `task_done` has returned, the result is not on the finished queue yet -/
  | reporting (job : ℕ) (success : Bool)
  | exited
deriving DecidableEq, Repr

structure Worker (τ : Type) where
  loadPriority : Bool
  state : WorkerState τ

/-- `DualQueueThreadPool`, with the `JobState` objects that its queues and workers refer to. -/
structure Pool (τ κ : Type) where
  loadQ : List (τ × ℕ)
  storeQ : List (τ × ℕ)
  stop : Bool
  workers : List (Worker τ)
  finishedQ : List (ℕ × Bool)
  inflightJobs : ℤ
  jobs : List (JobState κ)

/-- What a worker does next, with what it then knows of its job. -/
inductive WorkerAction (τ : Type) where
  | take
  | exit
  | work (rest : τ)
  | raise
  | taskEnded (job : ℕ) (success : Bool)
  | taskDone (job : ℕ) (success : Bool)
  | called (job : ℕ) (success : Bool)
  | returned (job : ℕ) (ok : Bool)
  | reported (job : ℕ) (success : Bool)

/-- The calls of the owner of the pool, and the steps of its workers. -/
inductive PoolEvent (τ κ : Type) where
  | enqueueLoad (jobId nTasks : ℕ) (tasks : List τ)
  | enqueueStore (jobId nTasks : ℕ) (tasks : List τ) (onComplete : Option κ)
  /-- one `popleft` of `get_finished` -/
  | getFinished (job : ℕ) (success : Bool)
  | shutdown
  | worker (index : ℕ) (action : WorkerAction τ)

namespace Pool

variable {τ κ : Type}

/-- `__init__`: the given numbers of load- and store-priority workers. -/
def init (nReadThreads nWriteThreads : ℕ) : Pool τ κ where
  loadQ := []
  storeQ := []
  stop := false
  workers := List.replicate nReadThreads ⟨true, .waiting⟩ ++ List.replicate nWriteThreads ⟨false, .waiting⟩
  finishedQ := []
  inflightJobs := 0
  jobs := []

/-- The start of both `enqueue` methods: a new `JobState`, counted as in flight. -/
def openJob (p : Pool τ κ) (jobId nTasks : ℕ) (onComplete : Option κ) : Pool τ κ :=
  { p with
    inflightJobs := p.inflightJobs + 1
    jobs := p.jobs ++ [⟨jobId, nTasks, 0, true, onComplete⟩] }

def enqueueLoad (p : Pool τ κ) (jobId nTasks : ℕ) (tasks : List τ) : Pool τ κ :=
  { p.openJob jobId nTasks none with loadQ := p.loadQ ++ tasks.map fun task => (task, p.jobs.length) }

def enqueueStore (p : Pool τ κ) (jobId nTasks : ℕ) (tasks : List τ) (onComplete : Option κ) : Pool τ κ :=
  { p.openJob jobId nTasks onComplete with
    storeQ := p.storeQ ++ tasks.map fun task => (task, p.jobs.length) }

/-- The locked section of `shutdown`. -/
def shutdown (p : Pool τ κ) : Pool τ κ :=
  { p with stop := true, loadQ := [], storeQ := [], inflightJobs := 0 }

/-- `primary.popleft() if primary else secondary.popleft()`. -/
def pop (p : Pool τ κ) (loadPriority : Bool) : Option ((τ × ℕ) × Pool τ κ) :=
  match loadPriority, p.loadQ, p.storeQ with
  | true, item :: rest, _ => some (item, { p with loadQ := rest })
  | true, [], item :: rest => some (item, { p with storeQ := rest })
  | false, _, item :: rest => some (item, { p with storeQ := rest })
  | false, item :: rest, [] => some (item, { p with loadQ := rest })
  | _, [], [] => none

/-- The effect of a worker's step on the pool, and the worker's next state. -/
def move (p : Pool τ κ) (loadPriority : Bool) :
    WorkerState τ → WorkerAction τ → Option (Pool τ κ × WorkerState τ)
  | .waiting, .take =>
    if p.stop then none
    else (p.pop loadPriority).map fun popped => (popped.2, .running popped.1.1 popped.1.2)
  | .waiting, .exit => if p.stop then some (p, .exited) else none
  | .running _ job, .work rest => some (p, .running rest job)
  | .running task job, .raise => some (p, .unwinding task job)
  | .running _ job, .taskEnded job' success =>
    if job' = job ∧ success = true then some (p, .ended job true) else none
  | .unwinding _ job, .taskEnded job' success =>
    if job' = job ∧ success = false then some (p, .ended job false) else none
  | .ended job success, .taskDone job' success' =>
    if job' = job ∧ success' = success then
      (p.jobs[job]?).map fun state =>
        let (state, completed) := state.taskDone success
        ({ p with jobs := p.jobs.set job state },
          if completed then
            if state.onComplete.isSome then .completing job state.success
            else .reporting job state.success
          else .waiting)
    else none
  | .completing job success, .called job' success' =>
    if job' = job ∧ success' = success then some (p, .inCallback job success) else none
  | .inCallback job success, .returned job' ok =>
    if job' = job then some (p, .reporting job (success && ok)) else none
  | .reporting job success, .reported job' success' =>
    if job' = job ∧ success' = success then
      some ({ p with
        finishedQ := p.finishedQ ++ [(job, success)]
        inflightJobs := p.inflightJobs - 1 }, .waiting)
    else none
  | _, _ => none

def setWorker (p : Pool τ κ) (index : ℕ) (worker : Worker τ) : Pool τ κ :=
  { p with workers := p.workers.set index worker }

/-- One step of the worker at an index. -/
def workerStep (p : Pool τ κ) (index : ℕ) (action : WorkerAction τ) : Option (Pool τ κ) :=
  (p.workers[index]?).bind fun worker =>
    (p.move worker.loadPriority worker.state action).map fun moved =>
      moved.1.setWorker index ⟨worker.loadPriority, moved.2⟩

def step (p : Pool τ κ) : PoolEvent τ κ → Option (Pool τ κ)
  | .enqueueLoad jobId nTasks tasks => some (p.enqueueLoad jobId nTasks tasks)
  | .enqueueStore jobId nTasks tasks onComplete => some (p.enqueueStore jobId nTasks tasks onComplete)
  | .getFinished job success =>
    match p.finishedQ with
    | [] => none
    | result :: rest => if result = (job, success) then some { p with finishedQ := rest } else none
  | .shutdown => some p.shutdown
  | .worker index action => p.workerStep index action

/-- The condition `wait_idle` waits for. -/
def idle (p : Pool τ κ) : Prop := p.inflightJobs = 0

/-- Nothing is queued, and no worker is between taking a task and reporting its job. -/
def Quiescent (p : Pool τ κ) : Prop :=
  p.loadQ = [] ∧ p.storeQ = [] ∧
    ∀ worker ∈ p.workers, worker.state = .waiting ∨ worker.state = .exited

/-- The `JobState` behind a reference; a reference that is not in use reads as a job of no tasks. -/
def jobState (p : Pool τ κ) (job : ℕ) : JobState κ := (p.jobs[job]?).getD ⟨0, 0, 0, true, none⟩

/-- The tasks of a job that no worker has taken yet. -/
def queued (p : Pool τ κ) (job : ℕ) : ℕ := (p.loadQ ++ p.storeQ).countP fun item => item.2 = job

/-! ## What a worker's step does -/

/-- The steps of a worker, one constructor for each. -/
inductive Moves (p : Pool τ κ) (loadPriority : Bool) :
    WorkerState τ → WorkerAction τ → Pool τ κ → WorkerState τ → Prop
  | take {item : τ × ℕ} {next : Pool τ κ} (going : p.stop = false)
      (popped : p.pop loadPriority = some (item, next)) :
      Moves p loadPriority .waiting .take next (.running item.1 item.2)
  | exit (stopped : p.stop = true) : Moves p loadPriority .waiting .exit p .exited
  | work {task rest : τ} {job : ℕ} :
      Moves p loadPriority (.running task job) (.work rest) p (.running rest job)
  | raise {task : τ} {job : ℕ} : Moves p loadPriority (.running task job) .raise p (.unwinding task job)
  | taskReturned {task : τ} {job : ℕ} :
      Moves p loadPriority (.running task job) (.taskEnded job true) p (.ended job true)
  | taskRaised {task : τ} {job : ℕ} :
      Moves p loadPriority (.unwinding task job) (.taskEnded job false) p (.ended job false)
  | taskDone {job : ℕ} {success : Bool} {state : JobState κ} (found : p.jobs[job]? = some state) :
      Moves p loadPriority (.ended job success) (.taskDone job success)
        { p with jobs := p.jobs.set job (state.taskDone success).1 }
        (if (state.taskDone success).2 then
          if (state.taskDone success).1.onComplete.isSome then
            .completing job (state.taskDone success).1.success
          else .reporting job (state.taskDone success).1.success
        else .waiting)
  | called {job : ℕ} {success : Bool} :
      Moves p loadPriority (.completing job success) (.called job success) p (.inCallback job success)
  | returned {job : ℕ} {success ok : Bool} :
      Moves p loadPriority (.inCallback job success) (.returned job ok) p (.reporting job (success && ok))
  | reported {job : ℕ} {success : Bool} :
      Moves p loadPriority (.reporting job success) (.reported job success)
        { p with
          finishedQ := p.finishedQ ++ [(job, success)]
          inflightJobs := p.inflightJobs - 1 } .waiting

theorem moves_of_move {p next : Pool τ κ} {loadPriority : Bool} {source target : WorkerState τ}
    {action : WorkerAction τ} (moved : p.move loadPriority source action = some (next, target)) :
    Moves p loadPriority source action next target := by
  unfold move at moved
  split at moved
  case h_1 =>
    split at moved
    · cases moved
    · next going =>
      obtain ⟨popped, found, same⟩ := Option.map_eq_some_iff.mp moved
      obtain ⟨rfl, rfl⟩ := Prod.mk.inj same
      exact .take (by simpa using going) found
  case h_2 =>
    split at moved
    · next stopped =>
      cases moved
      exact .exit stopped
    · cases moved
  case h_3 =>
    cases moved
    exact .work
  case h_4 =>
    cases moved
    exact .raise
  case h_5 =>
    split at moved
    · next same =>
      obtain ⟨rfl, rfl⟩ := same
      cases moved
      exact .taskReturned
    · cases moved
  case h_6 =>
    split at moved
    · next same =>
      obtain ⟨rfl, rfl⟩ := same
      cases moved
      exact .taskRaised
    · cases moved
  case h_7 =>
    split at moved
    · next same =>
      obtain ⟨rfl, rfl⟩ := same
      obtain ⟨state, found, same⟩ := Option.map_eq_some_iff.mp moved
      obtain ⟨rfl, rfl⟩ := Prod.mk.inj same
      exact .taskDone found
    · cases moved
  case h_8 =>
    split at moved
    · next same =>
      obtain ⟨rfl, rfl⟩ := same
      cases moved
      exact .called
    · cases moved
  case h_9 =>
    split at moved
    · next same =>
      subst same
      cases moved
      exact .returned
    · cases moved
  case h_10 =>
    split at moved
    · next same =>
      obtain ⟨rfl, rfl⟩ := same
      cases moved
      exact .reported
    · cases moved
  case h_11 => cases moved

/-- A popped task leaves its queue and nothing else changes. -/
theorem pop_cases {p next : Pool τ κ} {loadPriority : Bool} {item : τ × ℕ}
    (popped : p.pop loadPriority = some (item, next)) :
    (p.loadQ = item :: next.loadQ ∧ next = { p with loadQ := next.loadQ }) ∨
      (p.storeQ = item :: next.storeQ ∧ next = { p with storeQ := next.storeQ }) := by
  cases loadPriority <;> cases load : p.loadQ <;> cases store : p.storeQ <;>
    simp only [pop, load, store, Option.some.injEq, Prod.mk.injEq, reduceCtorEq] at popped
  all_goals
    obtain ⟨rfl, rfl⟩ := popped
    first
      | exact .inl ⟨rfl, rfl⟩
      | exact .inr ⟨rfl, rfl⟩

theorem pop_queued {p next : Pool τ κ} {loadPriority : Bool} {item : τ × ℕ}
    (popped : p.pop loadPriority = some (item, next)) (job : ℕ) :
    p.queued job = next.queued job + if item.2 = job then 1 else 0 := by
  rcases pop_cases popped with ⟨queue, same⟩ | ⟨queue, same⟩ <;> rw [same] <;>
    simp only [queued, queue, List.countP_append, List.countP_cons, decide_eq_true_eq] <;> omega

theorem Moves.workers {p next : Pool τ κ} {loadPriority : Bool} {source target : WorkerState τ}
    {action : WorkerAction τ} (moves : Moves p loadPriority source action next target) :
    next.workers = p.workers := by
  cases moves with
  | take _ popped => rcases pop_cases popped with ⟨_, same⟩ | ⟨_, same⟩ <;> rw [same]
  | _ => rfl

/-- A worker's step splits the list of workers at that worker. -/
theorem workerStep_cases {p next : Pool τ κ} {index : ℕ} {action : WorkerAction τ}
    (stepped : p.workerStep index action = some next) :
    ∃ before after loadPriority source target middle,
      p.workers = before ++ ⟨loadPriority, source⟩ :: after ∧ before.length = index ∧
      Moves p loadPriority source action middle target ∧
      next = { middle with workers := before ++ ⟨loadPriority, target⟩ :: after } := by
  obtain ⟨⟨loadPriority, source⟩, found, rest⟩ := Option.bind_eq_some_iff.mp stepped
  obtain ⟨⟨middle, target⟩, moved, rfl⟩ := Option.map_eq_some_iff.mp rest
  have moves := moves_of_move moved
  obtain ⟨inside, at_index⟩ := List.getElem?_eq_some_iff.mp found
  refine ⟨p.workers.take index, p.workers.drop (index + 1), loadPriority, source, target, middle,
    ?_, by simp; omega, moves, ?_⟩
  · conv_lhs => rw [← List.set_getElem_self inside, List.set_eq_take_append_cons_drop, if_pos inside]
    rw [at_index]
  · rw [setWorker, moves.workers, List.set_eq_take_append_cons_drop, if_pos inside]

/-- `get_finished` hands out the head of the finished queue and changes nothing else. -/
theorem getFinished_cases {p next : Pool τ κ} {job : ℕ} {success : Bool}
    (stepped : p.step (.getFinished job success) = some next) :
    p.finishedQ = (job, success) :: next.finishedQ ∧ next = { p with finishedQ := next.finishedQ } := by
  simp only [step] at stepped
  split at stepped
  · cases stepped
  · next result rest queue =>
    split at stepped
    · next same =>
      cases stepped
      exact ⟨by rw [queue, same], rfl⟩
    · cases stepped

end Pool

end KVTiering.Model
