import KVTiering.Soundness.PoolLedger
import Mathlib.Data.Finset.Card

/-! # Job accounting of the thread pool

The events of a run and the state it reaches give each job its ledger. A worker's step moves at most one
ledger, by one step of the ledger machine, so that what the ledgers keep balanced holds of every job over
every run. Counting the jobs without a report gives the meaning of `_inflight_jobs`.
-/

namespace KVTiering.Soundness.ThreadPool

open Model

variable {τ κ : Type}

/-! ## What a run shows of a job -/

@[simp] def outcome? (job : ℕ) : PoolEvent τ κ → Option Bool
  | .worker _ (.taskEnded job' success) => if job' = job then some success else none
  | _ => none

@[simp] def call? (job : ℕ) : PoolEvent τ κ → Option Bool
  | .worker _ (.called job' success) => if job' = job then some success else none
  | _ => none

@[simp] def return? (job : ℕ) : PoolEvent τ κ → Option Bool
  | .worker _ (.returned job' ok) => if job' = job then some ok else none
  | _ => none

@[simp] def report? (job : ℕ) : PoolEvent τ κ → Option Bool
  | .worker _ (.reported job' success) => if job' = job then some success else none
  | _ => none

/-- How the tasks of the job ended, in the order in which they did. -/
def outcomes (events : List (PoolEvent τ κ)) (job : ℕ) : List Bool := events.filterMap (outcome? job)

/-- The calls of the job's `on_complete`, with their argument. -/
def calls (events : List (PoolEvent τ κ)) (job : ℕ) : List Bool := events.filterMap (call? job)

/-- How these calls ended: `false` for a callback that raised. -/
def returns (events : List (PoolEvent τ κ)) (job : ℕ) : List Bool := events.filterMap (return? job)

/-- The results of the job that were put on the finished queue. -/
def reports (events : List (PoolEvent τ κ)) (job : ℕ) : List Bool := events.filterMap (report? job)

@[simp] def result? : PoolEvent τ κ → Option (ℕ × Bool)
  | .worker _ (.reported job success) => some (job, success)
  | _ => none

@[simp] def handed? : PoolEvent τ κ → Option (ℕ × Bool)
  | .getFinished job success => some (job, success)
  | _ => none

/-- Everything that was put on the finished queue. -/
def appended (events : List (PoolEvent τ κ)) : List (ℕ × Bool) := events.filterMap result?

/-- Everything that `get_finished` has handed out. -/
def handedOut (events : List (PoolEvent τ κ)) : List (ℕ × Bool) := events.filterMap handed?

@[simp] theorem outcomes_snoc (past : List (PoolEvent τ κ)) (event : PoolEvent τ κ) (job : ℕ) :
    outcomes (past ++ [event]) job = outcomes past job ++ (outcome? job event).toList := by
  simp [outcomes, List.filterMap_cons]; split <;> simp_all

@[simp] theorem calls_snoc (past : List (PoolEvent τ κ)) (event : PoolEvent τ κ) (job : ℕ) :
    calls (past ++ [event]) job = calls past job ++ (call? job event).toList := by
  simp [calls, List.filterMap_cons]; split <;> simp_all

@[simp] theorem returns_snoc (past : List (PoolEvent τ κ)) (event : PoolEvent τ κ) (job : ℕ) :
    returns (past ++ [event]) job = returns past job ++ (return? job event).toList := by
  simp [returns, List.filterMap_cons]; split <;> simp_all

@[simp] theorem reports_snoc (past : List (PoolEvent τ κ)) (event : PoolEvent τ κ) (job : ℕ) :
    reports (past ++ [event]) job = reports past job ++ (report? job event).toList := by
  simp [reports, List.filterMap_cons]; split <;> simp_all

@[simp] theorem appended_snoc (past : List (PoolEvent τ κ)) (event : PoolEvent τ κ) :
    appended (past ++ [event]) = appended past ++ (result? event).toList := by
  simp [appended, List.filterMap_cons]; split <;> simp_all

@[simp] theorem handedOut_snoc (past : List (PoolEvent τ κ)) (event : PoolEvent τ κ) :
    handedOut (past ++ [event]) = handedOut past ++ (handed? event).toList := by
  simp [handedOut, List.filterMap_cons]; split <;> simp_all

/-- The results of a job are what was put on the finished queue under its reference. -/
theorem mem_reports_iff {events : List (PoolEvent τ κ)} {job : ℕ} {success : Bool} :
    success ∈ reports events job ↔ (job, success) ∈ appended events := by
  simp only [reports, appended, List.mem_filterMap]
  refine exists_congr fun event => and_congr_right fun _ => ?_
  cases event with
  | worker _ action => cases action <;> simp
  | _ => simp

/-! ## Where the workers stand on a job -/

/-- The worker is at work on a task of the job. -/
@[simp] def runs (job : ℕ) : WorkerState τ → Bool
  | .running _ job' => job' = job
  | .unwinding _ job' => job' = job
  | _ => false

/-- The worker's task of the job is over, and not counted yet. -/
@[simp] def ends (job : ℕ) : WorkerState τ → Bool
  | .ended job' _ => job' = job
  | _ => false

/-- As `ends`, with the task failed. -/
@[simp] def fails (job : ℕ) : WorkerState τ → Bool
  | .ended job' success => job' = job && !success
  | _ => false

@[simp] def finish? (job : ℕ) : WorkerState τ → Option Finish
  | .completing job' success => if job' = job then some (.completing success) else none
  | .inCallback job' success => if job' = job then some (.inCallback success) else none
  | .reporting job' success => if job' = job then some (.reporting success) else none
  | _ => none

/-- The worker is between taking a task of the job and waiting for the next task. -/
def holds (job : ℕ) (state : WorkerState τ) : Bool := runs job state || ends job state || (finish? job state).isSome

/-- The number of workers at work on tasks of the job. -/
def running (job : ℕ) (workers : List (Worker τ)) : ℕ := workers.countP fun worker => runs job worker.state

def ended (job : ℕ) (workers : List (Worker τ)) : ℕ := workers.countP fun worker => ends job worker.state

def failed (job : ℕ) (workers : List (Worker τ)) : ℕ := workers.countP fun worker => fails job worker.state

def finishing (job : ℕ) (workers : List (Worker τ)) : List Finish :=
  workers.filterMap fun worker => finish? job worker.state

theorem running_split (job : ℕ) (before after : List (Worker τ)) (worker : Worker τ) :
    running job (before ++ worker :: after) =
      running job (before ++ after) + if runs job worker.state then 1 else 0 := by
  simp only [running, List.countP_append, List.countP_cons]; omega

theorem ended_split (job : ℕ) (before after : List (Worker τ)) (worker : Worker τ) :
    ended job (before ++ worker :: after) =
      ended job (before ++ after) + if ends job worker.state then 1 else 0 := by
  simp only [ended, List.countP_append, List.countP_cons]; omega

theorem failed_split (job : ℕ) (before after : List (Worker τ)) (worker : Worker τ) :
    failed job (before ++ worker :: after) =
      failed job (before ++ after) + if fails job worker.state then 1 else 0 := by
  simp only [failed, List.countP_append, List.countP_cons]; omega

theorem finishing_split (job : ℕ) (before after : List (Worker τ)) (worker : Worker τ) :
    finishing job (before ++ worker :: after) =
      finishing job before ++ ((finish? job worker.state).toList ++ finishing job after) := by
  simp only [finishing, List.filterMap_append, List.filterMap_cons]
  split <;> simp_all

/-- The ledger of a job, from the events so far and the pool. -/
def ledger (events : List (PoolEvent τ κ)) (p : Pool τ κ) (job : ℕ) : Ledger κ where
  state := p.jobState job
  queued := p.queued job
  running := running job p.workers
  ended := ended job p.workers
  failed := failed job p.workers
  finishing := finishing job p.workers
  outcomes := outcomes events job
  calls := calls events job
  returns := returns events job
  reports := reports events job

theorem jobState_of_found {p : Pool τ κ} {job : ℕ} {state : JobState κ} (found : p.jobs[job]? = some state) :
    p.jobState job = state := by simp [Pool.jobState, found]

/-- Counting a task changes the state of its job and of no other. -/
theorem jobState_set {p : Pool τ κ} {job : ℕ} {state : JobState κ} (found : p.jobs[job]? = some state)
    (written : JobState κ) (other : ℕ) :
    ({ p with jobs := p.jobs.set job written } : Pool τ κ).jobState other =
      if other = job then written else p.jobState other := by
  obtain ⟨inside, _⟩ := List.getElem?_eq_some_iff.mp found
  by_cases same : other = job
  · simp [Pool.jobState, same, List.getElem?_set_self inside]
  · simp [Pool.jobState, same, List.getElem?_set_ne (Ne.symm same)]

theorem jobState_popped {p next : Pool τ κ} {loadPriority : Bool} {item : τ × ℕ}
    (popped : p.pop loadPriority = some (item, next)) (job : ℕ) : next.jobState job = p.jobState job := by
  rcases Pool.pop_cases popped with ⟨_, same⟩ | ⟨_, same⟩ <;> rw [same] <;> rfl

/-- The ledger of a pool with one worker singled out. -/
theorem ledger_split {events : List (PoolEvent τ κ)} {p : Pool τ κ} {before after : List (Worker τ)}
    {worker : Worker τ} (workers : p.workers = before ++ worker :: after) (job : ℕ) :
    ledger events p job =
      { state := p.jobState job
        queued := p.queued job
        running := running job (before ++ after) + if runs job worker.state then 1 else 0
        ended := ended job (before ++ after) + if ends job worker.state then 1 else 0
        failed := failed job (before ++ after) + if fails job worker.state then 1 else 0
        finishing := finishing job before ++ ((finish? job worker.state).toList ++ finishing job after)
        outcomes := outcomes events job
        calls := calls events job
        returns := returns events job
        reports := reports events job } := by
  rw [ledger, workers, running_split, ended_split, failed_split, finishing_split]

/-- The ledger of a pool that differs from another in one worker's state. -/
theorem ledger_replaced {events : List (PoolEvent τ κ)} {p : Pool τ κ} {before after : List (Worker τ)}
    {worker : Worker τ} (job : ℕ) :
    ledger events { p with workers := before ++ worker :: after } job =
      { state := p.jobState job
        queued := p.queued job
        running := running job (before ++ after) + if runs job worker.state then 1 else 0
        ended := ended job (before ++ after) + if ends job worker.state then 1 else 0
        failed := failed job (before ++ after) + if fails job worker.state then 1 else 0
        finishing := finishing job before ++ ((finish? job worker.state).toList ++ finishing job after)
        outcomes := outcomes events job
        calls := calls events job
        returns := returns events job
        reports := reports events job } := ledger_split rfl job

/-- A worker's step leaves the ledger of a job alone or is one step of it. -/
theorem ledger_worker {p next : Pool τ κ} {index : ℕ} {action : WorkerAction τ}
    (stepped : p.workerStep index action = some next) (past : List (PoolEvent τ κ)) (job : ℕ) :
    ledger (past ++ [.worker index action]) next job = ledger past p job ∨
      Ledger.Step (ledger past p job) (ledger (past ++ [.worker index action]) next job) := by
  obtain ⟨before, after, loadPriority, source, target, middle, workers, rfl, moves, rfl⟩ :=
    Pool.workerStep_cases stepped
  rw [ledger_split workers job, ledger_replaced job, outcomes_snoc, calls_snoc, returns_snoc, reports_snoc]
  -- the part of the ledger that the other workers make up
  let base : Ledger κ :=
    ⟨p.jobState job, p.queued job, running job (before ++ after), ended job (before ++ after),
      failed job (before ++ after), finishing job before ++ finishing job after, outcomes past job,
      calls past job, returns past job, reports past job⟩
  cases moves with
  | @take item _ going popped =>
    have queued := Pool.pop_queued popped job
    have state := jobState_popped popped job
    by_cases same : item.2 = job
    · right
      convert Ledger.Step.take { base with queued := middle.queued job } using 1 <;>
        simp [base, queued, state, same]
    · left
      simp [queued, state, same]
  | exit => left; simp
  | work => left; simp
  | raise => left; simp
  | @taskReturned task job' =>
    by_cases same : job' = job
    · right
      convert Ledger.Step.taskReturned base using 1 <;> simp [base, same]
    · left
      simp [same]
  | @taskRaised task job' =>
    by_cases same : job' = job
    · right
      convert Ledger.Step.taskRaised base using 1 <;> simp [base, same]
    · left
      simp [same]
  | @taskDone job' success state found =>
    have written := jobState_set found (state.taskDone success).1 job
    by_cases same : job' = job
    · right
      subst same
      have known := jobState_of_found found
      convert Ledger.Step.taskDone base success (finishing job' before) (finishing job' after) using 1
      · cases success <;> simp [base]
      · cases last : (state.taskDone success).2 <;>
          cases callback : (state.taskDone success).1.onComplete <;>
          simp [base, written, known, last, callback, Ledger.finishOf, Pool.queued]
    · left
      have other : ¬ job = job' := fun equal => same equal.symm
      cases (state.taskDone success).2 <;> cases (state.taskDone success).1.onComplete <;>
        simp [written, same, other, Pool.queued]
  | @called job' success =>
    by_cases same : job' = job
    · right
      convert Ledger.Step.called base success (finishing job before) (finishing job after) using 1 <;> simp [base, same]
    · left
      simp [same]
  | @returned job' success ok =>
    by_cases same : job' = job
    · right
      convert Ledger.Step.returned base success ok (finishing job before) (finishing job after) using 1 <;>
        simp [base, same]
    · left
      simp [same]
  | @reported job' success =>
    by_cases same : job' = job
    · right
      convert Ledger.Step.reported base success (finishing job before) (finishing job after) using 1 <;>
        simp [base, same, Pool.jobState, Pool.queued]
    · left
      simp [same, Pool.jobState, Pool.queued]

/-! ## What a step of the pool does to the ledgers -/

/-- What the two `enqueue` methods are given. -/
structure Submission (τ κ : Type) where
  jobId : ℕ
  nTasks : ℕ
  tasks : List τ
  onComplete : Option κ

def submission? : PoolEvent τ κ → Option (Submission τ κ)
  | .enqueueLoad jobId nTasks tasks => some ⟨jobId, nTasks, tasks, none⟩
  | .enqueueStore jobId nTasks tasks onComplete => some ⟨jobId, nTasks, tasks, onComplete⟩
  | _ => none

/-- The number of tasks that an `enqueue` announces is the number that it queues. -/
def Counted (event : PoolEvent τ κ) : Prop :=
  ∀ submission, submission? event = some submission → submission.nTasks = submission.tasks.length

theorem countP_tagged (tasks : List τ) (tag job : ℕ) :
    (tasks.map fun task => (task, tag)).countP (fun item => item.2 = job) =
      if job = tag then tasks.length else 0 := by
  rw [List.countP_map]
  split
  · next same => simp [same, Function.comp_def]
  · next other => simp [Function.comp_def, Ne.symm other]

/-- Both `enqueue` methods open one job, queue its tasks and change nothing else. -/
theorem enqueue_spec {p next : Pool τ κ} {event : PoolEvent τ κ} {submission : Submission τ κ}
    (stepped : p.step event = some next) (submits : submission? event = some submission) :
    next.jobs = p.jobs ++ [⟨submission.jobId, submission.nTasks, 0, true, submission.onComplete⟩] ∧
      (∀ job, next.queued job = p.queued job + if job = p.jobs.length then submission.tasks.length else 0) ∧
      next.workers = p.workers ∧ next.stop = p.stop ∧ next.inflightJobs = p.inflightJobs + 1 ∧
      next.finishedQ = p.finishedQ := by
  cases event with
  | enqueueLoad jobId nTasks tasks =>
    cases stepped
    cases submits
    refine ⟨rfl, fun job => ?_, rfl, rfl, rfl, rfl⟩
    simp only [Pool.queued, Pool.enqueueLoad, Pool.openJob, List.countP_append, countP_tagged]
    omega
  | enqueueStore jobId nTasks tasks onComplete =>
    cases stepped
    cases submits
    refine ⟨rfl, fun job => ?_, rfl, rfl, rfl, rfl⟩
    simp only [Pool.queued, Pool.enqueueStore, Pool.openJob, List.countP_append, countP_tagged]
    omega
  | _ => cases submits

/-- Opening a job gives the next free reference its `JobState` and leaves the others alone. -/
theorem jobState_open {p next : Pool τ κ} {state : JobState κ} (jobs : next.jobs = p.jobs ++ [state])
    (job : ℕ) : next.jobState job = if job = p.jobs.length then state else p.jobState job := by
  simp only [Pool.jobState, jobs]
  rcases lt_trichotomy job p.jobs.length with below | same | above
  · simp [List.getElem?_append_left below, below.ne]
  · simp [same]
  · rw [List.getElem?_eq_none (by simp; omega), List.getElem?_eq_none (by omega), if_neg (by omega)]

/-- Nothing is seen of a job in an `enqueue`. -/
theorem observations_enqueue {event : PoolEvent τ κ} {submission : Submission τ κ}
    (submits : submission? event = some submission) (past : List (PoolEvent τ κ)) (job : ℕ) :
    outcomes (past ++ [event]) job = outcomes past job ∧ calls (past ++ [event]) job = calls past job ∧
      returns (past ++ [event]) job = returns past job ∧ reports (past ++ [event]) job = reports past job := by
  cases event with
  | worker => cases submits
  | _ => simp

/-- An `enqueue` opens the ledger of the next free reference and leaves the others alone. -/
theorem ledger_opened {p next : Pool τ κ} {event : PoolEvent τ κ} {submission : Submission τ κ}
    (stepped : p.step event = some next) (submits : submission? event = some submission)
    (past : List (PoolEvent τ κ)) (job : ℕ) :
    ledger (past ++ [event]) next job =
      if job = p.jobs.length then
        { ledger past p job with
          state := ⟨submission.jobId, submission.nTasks, 0, true, submission.onComplete⟩
          queued := p.queued job + submission.tasks.length }
      else ledger past p job := by
  obtain ⟨jobs, queued, workers, _⟩ := enqueue_spec stepped submits
  obtain ⟨sameOutcomes, sameCalls, sameReturns, sameReports⟩ := observations_enqueue submits past job
  unfold ledger
  rw [sameOutcomes, sameCalls, sameReturns, sameReports, workers, queued, jobState_open jobs job]
  split <;> rfl

/-- The steps of the pool, as they are seen from one job. -/
theorem ledger_step {p next : Pool τ κ} {event : PoolEvent τ κ} (stepped : p.step event = some next)
    (past : List (PoolEvent τ κ)) (job : ℕ) :
    ledger (past ++ [event]) next job = ledger past p job ∨
      Ledger.Step (ledger past p job) (ledger (past ++ [event]) next job) ∨
      (∃ submission, submission? event = some submission ∧ job = p.jobs.length ∧
        ledger (past ++ [event]) next job =
          { ledger past p job with
            state := ⟨submission.jobId, submission.nTasks, 0, true, submission.onComplete⟩
            queued := p.queued job + submission.tasks.length }) ∨
      (event = .shutdown ∧ ledger (past ++ [event]) next job = { ledger past p job with queued := 0 }) := by
  cases submits : submission? event with
  | some submission =>
    have opened := ledger_opened stepped submits past job
    split at opened
    · next fresh => exact .inr (.inr (.inl ⟨submission, rfl, fresh, opened⟩))
    · exact .inl opened
  | none =>
    cases event with
    | enqueueLoad => cases submits
    | enqueueStore => cases submits
    | getFinished =>
      left
      rw [(Pool.getFinished_cases stepped).2]
      simp [ledger, Pool.jobState, Pool.queued]
    | shutdown =>
      cases stepped
      exact .inr (.inr (.inr ⟨rfl, by simp [ledger, Pool.shutdown, Pool.jobState, Pool.queued]⟩))
    | worker => exact (ledger_worker stepped past job).imp_right .inl

/-! ## What holds over every run -/

/-- A reference that no job has yet reads as the blank job. -/
theorem jobState_unopened {p : Pool τ κ} {job : ℕ} (unopened : p.jobs.length ≤ job) :
    p.jobState job = ⟨0, 0, 0, true, none⟩ := by simp [Pool.jobState, List.getElem?_eq_none unopened]

theorem workers_init (nReadThreads nWriteThreads : ℕ) {worker : Worker τ}
    (member : worker ∈ (Pool.init nReadThreads nWriteThreads : Pool τ κ).workers) :
    worker.state = .waiting := by
  simp only [Pool.init, List.mem_append, List.mem_replicate] at member
  rcases member with ⟨_, rfl⟩ | ⟨_, rfl⟩ <;> rfl

theorem ledger_init (nReadThreads nWriteThreads job : ℕ) :
    ledger [] (Pool.init nReadThreads nWriteThreads : Pool τ κ) job =
      ⟨⟨0, 0, 0, true, none⟩, 0, 0, 0, 0, [], [], [], [], []⟩ := by
  have waiting : ∀ worker ∈ (Pool.init nReadThreads nWriteThreads : Pool τ κ).workers,
      worker.state = .waiting := fun worker member => workers_init nReadThreads nWriteThreads member
  ext1
  · rfl
  · rfl
  · exact List.countP_eq_zero.mpr fun worker member => by simp [waiting worker member]
  · exact List.countP_eq_zero.mpr fun worker member => by simp [waiting worker member]
  · exact List.countP_eq_zero.mpr fun worker member => by simp [waiting worker member]
  · exact List.filterMap_eq_nil_iff.mpr fun worker member => by simp [waiting worker member]
  · rfl
  · rfl
  · rfl
  · rfl

/-- In every run whose jobs announce their number of tasks, every ledger is balanced. -/
theorem balanced_of_run {nReadThreads nWriteThreads : ℕ} {events : List (PoolEvent τ κ)} {p : Pool τ κ}
    (run : Run (Steps Pool.step) (Pool.init nReadThreads nWriteThreads) events p)
    (counted : ∀ event ∈ events, Counted event) (job : ℕ) : (ledger events p job).Balanced := by
  induction run with
  | nil =>
    rw [ledger_init]
    exact ⟨rfl, rfl, le_refl 0, .counting (.inr rfl) rfl ⟨rfl, rfl⟩ rfl⟩
  | @snoc past source final event _ moved ih =>
    have before := ih fun event member => counted event (by simp [member])
    rcases ledger_step moved past job with same | stepped | ⟨submission, submits, fresh, opened⟩ |
      ⟨_, cancelled⟩
    · rw [same]; exact before
    · exact before.step stepped
    · rw [opened, ← counted event (by simp) submission submits]
      exact before.opened (jobState_unopened fresh.ge) _ _ _
    · rw [cancelled]; exact before.cancelled

theorem tallied_of_run {nReadThreads nWriteThreads : ℕ} {events : List (PoolEvent τ κ)} {p : Pool τ κ}
    (run : Run (Steps Pool.step) (Pool.init nReadThreads nWriteThreads) events p) (job : ℕ) :
    (ledger events p job).Tallied := by
  induction run with
  | nil =>
    rw [ledger_init]
    exact .inl ⟨.inr rfl, rfl, rfl⟩
  | @snoc past source final event _ moved ih =>
    rcases ledger_step moved past job with same | stepped | ⟨submission, _, fresh, opened⟩ | ⟨_, cancelled⟩
    · rw [same]; exact ih
    · exact ih.step stepped
    · rw [opened]
      exact ih.opened (jobState_unopened fresh.ge) _ _ _ _
    · rw [cancelled]; exact ih

/-- What a worker's step does to the counters: it takes note of a reported job or leaves them alone. -/
theorem workerStep_counters {p next : Pool τ κ} {index : ℕ} {action : WorkerAction τ}
    (stepped : p.workerStep index action = some next) :
    next.jobs.length = p.jobs.length ∧ next.stop = p.stop ∧
      ((∃ job success, action = .reported job success ∧ .reporting success ∈ finishing job p.workers ∧
          next.inflightJobs = p.inflightJobs - 1 ∧ next.finishedQ = p.finishedQ ++ [(job, success)]) ∨
        ((∀ job success, action ≠ .reported job success) ∧ next.inflightJobs = p.inflightJobs ∧
          next.finishedQ = p.finishedQ)) := by
  obtain ⟨before, after, loadPriority, source, target, middle, workers, rfl, moves, rfl⟩ :=
    Pool.workerStep_cases stepped
  cases moves with
  | take _ popped => rcases Pool.pop_cases popped with ⟨_, same⟩ | ⟨_, same⟩ <;> rw [same] <;> simp
  | @taskDone job success state found => exact ⟨List.length_set, rfl, .inr ⟨by simp, rfl, rfl⟩⟩
  | @reported job success =>
    refine ⟨rfl, rfl, .inl ⟨job, success, rfl, ?_, rfl, rfl⟩⟩
    rw [workers, finishing_split]
    simp
  | _ => exact ⟨rfl, rfl, .inr ⟨by simp, rfl, rfl⟩⟩

/-- The jobs that have been enqueued and not yet been put on the finished queue. -/
def unreported (events : List (PoolEvent τ κ)) (p : Pool τ κ) : Finset ℕ :=
  (Finset.range p.jobs.length).filter fun job => reports events job = []

theorem mem_unreported {events : List (PoolEvent τ κ)} {p : Pool τ κ} {job : ℕ} :
    job ∈ unreported events p ↔ job < p.jobs.length ∧ reports events job = [] := by
  simp [unreported]

theorem Tallied.of_blank {l : Ledger κ} (tallied : l.Tallied) (blank : l.state = ⟨0, 0, 0, true, none⟩) :
    l.finishing = [] ∧ l.reports = [] := by
  rcases tallied with ⟨_, quiet⟩ | ⟨_, some, _⟩
  · exact quiet
  · simp [blank] at some

/-- A job in the hands of a worker that is finishing it has not been reported. -/
theorem Tallied.of_finishing {l : Ledger κ} {finish : Finish} (tallied : l.Tallied)
    (member : finish ∈ l.finishing) : l.reports = [] := by
  rcases tallied with ⟨_, nobody, _⟩ | ⟨_, _, one⟩
  · simp [nobody] at member
  · have := List.length_pos_of_mem member
    exact List.eq_nil_of_length_eq_zero (by omega)

theorem unreported_reported {past : List (PoolEvent τ κ)} {p next : Pool τ κ} {index job : ℕ} {success : Bool}
    (jobs : next.jobs.length = p.jobs.length) :
    unreported (past ++ [.worker index (.reported job success)]) next = (unreported past p).erase job := by
  ext other
  rw [Finset.mem_erase, mem_unreported, mem_unreported, jobs, reports_snoc]
  by_cases same : job = other
  · simp [same]
  · simp [same, Ne.symm same]

theorem unreported_same {past : List (PoolEvent τ κ)} {p next : Pool τ κ} {event : PoolEvent τ κ}
    (silent : ∀ job, reports (past ++ [event]) job = reports past job)
    (jobs : next.jobs.length = p.jobs.length) : unreported (past ++ [event]) next = unreported past p := by
  simp only [unreported, jobs, silent]

theorem unreported_opened {past : List (PoolEvent τ κ)} {p next : Pool τ κ} {event : PoolEvent τ κ}
    (silent : ∀ job, reports (past ++ [event]) job = reports past job)
    (jobs : next.jobs.length = p.jobs.length + 1) (fresh : reports past p.jobs.length = []) :
    unreported (past ++ [event]) next = insert p.jobs.length (unreported past p) := by
  simp only [unreported, jobs, silent, Finset.range_add_one, Finset.filter_insert, fresh, if_true]

/-- Until the pool is shut down, `_inflight_jobs` is the number of jobs that are not reported. -/
theorem inflight_of_run {nReadThreads nWriteThreads : ℕ} {events : List (PoolEvent τ κ)} {p : Pool τ κ}
    (run : Run (Steps Pool.step) (Pool.init nReadThreads nWriteThreads) events p) (going : p.stop = false) :
    p.inflightJobs = (unreported events p).card := by
  induction run with
  | nil => simp [Pool.init, unreported]
  | @snoc past source final event before moved ih =>
    have tallied := tallied_of_run before
    have fresh := (Tallied.of_blank (tallied source.jobs.length) (jobState_unopened le_rfl)).2
    have opening : source.jobs.length ∉ unreported past source := by simp [mem_unreported]
    cases event with
    | enqueueLoad | enqueueStore =>
      obtain ⟨jobs, _, _, stop, inflight, _⟩ := enqueue_spec moved rfl
      rw [unreported_opened (by simp) (by simp [jobs]) fresh, Finset.card_insert_of_notMem opening, inflight,
        ih (stop ▸ going), Nat.cast_add, Nat.cast_one]
    | getFinished job success =>
      have same := (Pool.getFinished_cases moved).2
      have jobs : final.jobs.length = source.jobs.length := by rw [same]
      have stop : final.stop = source.stop := by rw [same]
      have inflight : final.inflightJobs = source.inflightJobs := by rw [same]
      rw [unreported_same (by simp) jobs, inflight, ih (stop ▸ going)]
    | shutdown =>
      cases moved
      cases going
    | worker index action =>
      obtain ⟨jobs, stop, counters⟩ := workerStep_counters moved
      have known := ih (stop ▸ going)
      rcases counters with ⟨job, success, rfl, worker, inflight, _⟩ | ⟨silent, inflight, _⟩
      · have open_job : job ∈ unreported past source := by
          refine mem_unreported.mpr ⟨?_, Tallied.of_finishing (tallied job) worker⟩
          by_contra unopened
          have nobody := (Tallied.of_blank (tallied job) (jobState_unopened (by omega))).1
          exact absurd worker (by simp [show finishing job source.workers = [] from nobody])
        rw [unreported_reported jobs, Finset.card_erase_of_mem open_job, inflight, known,
          Nat.cast_pred (Finset.card_pos.mpr ⟨job, open_job⟩)]
      · rw [unreported_same _ jobs, inflight, known]
        intro job
        cases action <;> simp_all

/-- Only `shutdown` sets `_stop`. -/
theorem stop_step {p next : Pool τ κ} {event : PoolEvent τ κ} (stepped : p.step event = some next)
    (other : event ≠ .shutdown) : next.stop = p.stop := by
  cases event with
  | enqueueLoad | enqueueStore => exact (enqueue_spec stepped rfl).2.2.2.1
  | getFinished => rw [(Pool.getFinished_cases stepped).2]
  | shutdown => exact absurd rfl other
  | worker => exact (workerStep_counters stepped).2.1

/-- A step that leaves `_stop` unset started with it unset, and was not `shutdown`. -/
theorem stop_of_step {p next : Pool τ κ} {event : PoolEvent τ κ} (stepped : p.step event = some next)
    (going : next.stop = false) : p.stop = false ∧ event ≠ .shutdown := by
  by_cases shutdown : event = .shutdown
  · subst shutdown
    cases stepped
    cases going
  · exact ⟨stop_step stepped shutdown ▸ going, shutdown⟩

theorem going_of_run {nReadThreads nWriteThreads : ℕ} {events : List (PoolEvent τ κ)} {p : Pool τ κ}
    (run : Run (Steps Pool.step) (Pool.init nReadThreads nWriteThreads) events p)
    (going : PoolEvent.shutdown ∉ events) : p.stop = false := by
  apply run.preserves (fun p => p.stop = false) rfl
  intro source event target member before moved
  rw [stop_step moved fun shutdown => going (shutdown ▸ member), before]

/-- Until the pool is shut down, no task is lost. -/
theorem total_of_run {nReadThreads nWriteThreads : ℕ} {events : List (PoolEvent τ κ)} {p : Pool τ κ}
    (run : Run (Steps Pool.step) (Pool.init nReadThreads nWriteThreads) events p)
    (counted : ∀ event ∈ events, Counted event) (going : p.stop = false) (job : ℕ) :
    (ledger events p job).Total := by
  induction run with
  | nil =>
    rw [ledger_init]
    rfl
  | @snoc past source final event before moved ih =>
    obtain ⟨going, notShutdown⟩ := stop_of_step moved going
    have known := ih (fun event member => counted event (by simp [member])) going
    rcases ledger_step moved past job with same | stepped | ⟨submission, submits, fresh, opened⟩ |
      ⟨shutdown, _⟩
    · rw [same]; exact known
    · exact known.step stepped
    · rw [opened, ← counted event (by simp) submission submits]
      exact known.opened (jobState_unopened fresh.ge) _ _ _
    · exact absurd shutdown notShutdown

/-- What is handed out and what is still on the finished queue is what was put there, in that order. -/
theorem finished_of_run {nReadThreads nWriteThreads : ℕ} {events : List (PoolEvent τ κ)} {p : Pool τ κ}
    (run : Run (Steps Pool.step) (Pool.init nReadThreads nWriteThreads) events p) :
    handedOut events ++ p.finishedQ = appended events := by
  induction run with
  | nil => rfl
  | @snoc past source final event before moved ih =>
    rw [handedOut_snoc, appended_snoc, ← ih]
    cases event with
    | enqueueLoad | enqueueStore => simp [(enqueue_spec moved rfl).2.2.2.2.2]
    | getFinished => simp [(Pool.getFinished_cases moved).1]
    | shutdown => cases moved; simp [Pool.shutdown]
    | worker index action =>
      obtain ⟨_, _, ⟨job, success, rfl, _, _, queue⟩ | ⟨silent, _, queue⟩⟩ := workerStep_counters moved
      · simp [queue]
      · cases action <;> simp_all

theorem failed_le_ended (job : ℕ) (workers : List (Worker τ)) : failed job workers ≤ ended job workers := by
  apply List.countP_mono_left
  intro worker _ fails
  cases found : worker.state <;> simp_all

/-- No worker holds the job exactly when its ledger has no worker in it. -/
theorem idle_iff (job : ℕ) (workers : List (Worker τ)) :
    (∀ worker ∈ workers, holds job worker.state = false) ↔
      running job workers = 0 ∧ ended job workers = 0 ∧ finishing job workers = [] := by
  simp only [running, ended, finishing, List.countP_eq_zero, List.filterMap_eq_nil_iff, ← forall_and]
  apply forall₂_congr
  intro worker _
  simp [holds, and_assoc]

/-- What the pool owes a job: in every state that a run reaches, hence after each of its events. -/
structure Accounted (events : List (PoolEvent τ κ)) (p : Pool τ κ) (job : ℕ) : Prop where
  /-- `on_complete` is called at most once, when all tasks have ended, with the conjunction of the
  outcomes. -/
  called : calls events job = [] ∨ (p.jobState job).onComplete.isSome = true ∧
    (outcomes events job).length = (p.jobState job).nTasks ∧ calls events job = [(outcomes events job).all id]
  /-- The job is appended at most once, with that conjunction and a callback that has returned. -/
  appended : reports events job = [] ∨ ∃ success, reports events job = [success] ∧
    (outcomes events job).length = (p.jobState job).nTasks ∧
    ((p.jobState job).onComplete = none ∧ success = (outcomes events job).all id ∨
      (p.jobState job).onComplete.isSome = true ∧ calls events job = [(outcomes events job).all id] ∧
        ∃ ok, returns events job = [ok] ∧ success = ((outcomes events job).all id && ok))
  /-- Once it is reported, no task of it is queued or with a worker. -/
  settled : reports events job ≠ [] → p.queued job = 0 ∧ ∀ worker ∈ p.workers, holds job worker.state = false
  /-- Until it is reported, a task of it is queued or a worker holds it. -/
  pending : reports events job = [] →
    0 < p.queued job ∨ ∃ worker ∈ p.workers, holds job worker.state = true

theorem accounted_of_run {nReadThreads nWriteThreads : ℕ} {events : List (PoolEvent τ κ)} {p : Pool τ κ}
    (run : Run (Steps Pool.step) (Pool.init nReadThreads nWriteThreads) events p)
    (counted : ∀ event ∈ events, Counted event) (going : p.stop = false) {job : ℕ}
    (some : (p.jobState job).nTasks ≠ 0) : Accounted events p job := by
  have balanced := balanced_of_run run counted job
  have failures : (ledger events p job).failed ≤ (ledger events p job).ended := failed_le_ended job p.workers
  refine ⟨balanced.called failures, ?_, ?_, ?_⟩
  · rcases balanced.reported failures with notReported | ⟨success, wasReported, result, _, length, conjunction⟩
    · exact .inl notReported
    · refine .inr ⟨success, wasReported, length, ?_⟩
      simp only [ledger] at conjunction
      rw [conjunction]
      exact result.imp (fun ⟨noCallback, _, _, same⟩ => ⟨noCallback, same⟩) id
  · intro wasReported
    rcases balanced.reported failures with notReported | ⟨_, _, _, ⟨queued, nobody⟩, _⟩
    · exact absurd notReported wasReported
    · exact ⟨queued, (idle_iff job p.workers).mpr nobody⟩
  · intro notReported
    by_contra! lost
    obtain ⟨noneRuns, noneEnds, noneFinishes⟩ := (idle_iff job p.workers).mp (by simpa using lost.2)
    have owed := balanced.pending (total_of_run run counted going job) some notReported
    simp only [ledger, noneRuns, noneEnds, noneFinishes, lt_irrefl, ne_eq, not_true, or_false] at owed
    exact absurd owed (by omega)

/-- Everything that was enqueued, by the reference it was given. -/
def submissions (events : List (PoolEvent τ κ)) : List (Submission τ κ) := events.filterMap submission?

@[simp] theorem submissions_snoc (past : List (PoolEvent τ κ)) (event : PoolEvent τ κ) :
    submissions (past ++ [event]) = submissions past ++ (submission? event).toList := by
  simp only [submissions, List.filterMap_append, List.filterMap_cons, List.filterMap_nil]
  split <;> simp_all

theorem length_jobs {p next : Pool τ κ} {event : PoolEvent τ κ} (stepped : p.step event = some next) :
    next.jobs.length = p.jobs.length + (submission? event).toList.length := by
  cases event with
  | enqueueLoad | enqueueStore => simp [(enqueue_spec stepped rfl).1, submission?]
  | getFinished => rw [(Pool.getFinished_cases stepped).2]; rfl
  | shutdown => cases stepped; rfl
  | worker => exact (workerStep_counters stepped).1

theorem length_jobs_of_run {nReadThreads nWriteThreads : ℕ} {events : List (PoolEvent τ κ)} {p : Pool τ κ}
    (run : Run (Steps Pool.step) (Pool.init nReadThreads nWriteThreads) events p) :
    p.jobs.length = (submissions events).length := by
  induction run with
  | nil => rfl
  | snoc _ moved ih => rw [length_jobs moved, submissions_snoc, List.length_append, ih]

/-- The `JobState` of a reference keeps what the job was enqueued with. -/
theorem jobState_of_run {nReadThreads nWriteThreads : ℕ} {events : List (PoolEvent τ κ)} {p : Pool τ κ}
    (run : Run (Steps Pool.step) (Pool.init nReadThreads nWriteThreads) events p) {job : ℕ}
    {submission : Submission τ κ} (found : (submissions events)[job]? = some submission) :
    (p.jobState job).jobId = submission.jobId ∧ (p.jobState job).nTasks = submission.nTasks ∧
      (p.jobState job).onComplete = submission.onComplete := by
  induction run with
  | nil => simp [submissions] at found
  | @snoc past source final event before moved ih =>
    have length := length_jobs_of_run before
    rw [submissions_snoc] at found
    by_cases below : job < source.jobs.length
    · rw [List.getElem?_append_left (length ▸ below)] at found
      obtain ⟨jobId, nTasks, onComplete⟩ := ih found
      rcases ledger_step moved past job with same | stepped | ⟨_, _, fresh, _⟩ | ⟨_, cancelled⟩
      · have state : final.jobState job = source.jobState job := congrArg Ledger.state same
        exact state ▸ ⟨jobId, nTasks, onComplete⟩
      · obtain ⟨_, sameJobId, sameNTasks, sameOnComplete⟩ := stepped.total
        exact ⟨sameJobId.trans jobId, sameNTasks.trans nTasks, sameOnComplete.trans onComplete⟩
      · omega
      · have state : final.jobState job = source.jobState job := congrArg Ledger.state cancelled
        exact state ▸ ⟨jobId, nTasks, onComplete⟩
    · -- the reference is new: this event is the `enqueue` that opened it
      rw [List.getElem?_append_right (by omega)] at found
      have opened : submission? event = some submission ∧ job = source.jobs.length := by
        cases opens : submission? event with
        | none => simp [opens] at found
        | some opening =>
          obtain ⟨first, same⟩ : job - (submissions past).length = 0 ∧ opening = submission := by
            simpa [opens, List.getElem?_singleton] using found
          exact ⟨by rw [same], by omega⟩
      rw [jobState_open (enqueue_spec moved opened.1).1, if_pos opened.2]
      exact ⟨rfl, rfl, rfl⟩

end KVTiering.Soundness.ThreadPool
