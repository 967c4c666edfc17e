import KVTiering.Soundness.PoolAccounting

/-! # The tasks of a job in the pool

A task that is queued or running stays so until a worker has run it to its end. A job one of whose tasks raised or
was cancelled has lost it for good, and is never reported as a success. A job is in flight from its submission
until its result is handed out.
-/

namespace KVTiering.Soundness.ThreadPool

open Model

variable {τ κ : Type}

/-- The task is queued for the job, or what a running worker has still to do of one. -/
def Live (p : Pool τ κ) (job : ℕ) (task : τ) : Prop :=
  (task, job) ∈ p.loadQ ++ p.storeQ ∨ ∃ worker ∈ p.workers, worker.state = .running task job

/-- Something of the job is queued, in the hands of a worker, or on the finished queue. -/
def InFlight (p : Pool τ κ) (job : ℕ) : Prop :=
  0 < p.queued job ∨ (∃ worker ∈ p.workers, holds job worker.state = true) ∨ ∃ success, (job, success) ∈ p.finishedQ

/-- A task of the job has raised, or will never be run. -/
def Lost (events : List (PoolEvent τ κ)) (p : Pool τ κ) (job : ℕ) : Prop :=
  false ∈ outcomes events job ∨ (∃ worker ∈ p.workers, ∃ task, worker.state = .unwinding task job) ∨
    p.queued job + running job p.workers + ended job p.workers + (p.jobState job).completed <
      (p.jobState job).nTasks

theorem queued_pos_iff {p : Pool τ κ} {job : ℕ} : 0 < p.queued job ↔ ∃ task, (task, job) ∈ p.loadQ ++ p.storeQ := by
  simp only [Pool.queued, List.countP_pos_iff, decide_eq_true_eq]
  constructor
  · rintro ⟨⟨task, job'⟩, member, rfl⟩
    exact ⟨task, member⟩
  · rintro ⟨task, member⟩
    exact ⟨_, member, rfl⟩

theorem inFlight_of_live {p : Pool τ κ} {job : ℕ} {task : τ} (live : Live p job task) : InFlight p job := by
  rcases live with queued | ⟨worker, member, running⟩
  · exact .inl (queued_pos_iff.mpr ⟨task, queued⟩)
  · exact .inr (.inl ⟨worker, member, by simp [holds, running]⟩)

theorem mem_popped {p next : Pool τ κ} {loadPriority : Bool} {item other : τ × ℕ}
    (popped : p.pop loadPriority = some (item, next)) :
    other ∈ p.loadQ ++ p.storeQ ↔ other = item ∨ other ∈ next.loadQ ++ next.storeQ := by
  rcases Pool.pop_cases popped with ⟨queue, same⟩ | ⟨queue, same⟩ <;> rw [queue, same] <;>
    simp only [List.mem_append, List.mem_cons]
  · exact or_assoc
  · exact or_left_comm

/-- The enqueued tasks are queued, and nothing else is. -/
theorem mem_enqueued {p next : Pool τ κ} {event : PoolEvent τ κ} {submission : Submission τ κ}
    (stepped : p.step event = some next) (submits : submission? event = some submission) {item : τ × ℕ} :
    item ∈ next.loadQ ++ next.storeQ ↔
      item ∈ p.loadQ ++ p.storeQ ∨ item.1 ∈ submission.tasks ∧ item.2 = p.jobs.length := by
  have tagged : ∀ tasks : List τ, item ∈ tasks.map (fun task => (task, p.jobs.length)) ↔
      item.1 ∈ tasks ∧ item.2 = p.jobs.length := by
    intro tasks
    rw [List.mem_map]
    constructor
    · rintro ⟨task, member, rfl⟩
      exact ⟨member, rfl⟩
    · rintro ⟨member, same⟩
      exact ⟨item.1, member, by rw [← same]⟩
  cases event with
  | enqueueLoad jobId nTasks tasks =>
    cases stepped
    cases submits
    simp only [Pool.enqueueLoad, Pool.openJob, List.mem_append, tagged]
    exact or_right_comm
  | enqueueStore jobId nTasks tasks onComplete =>
    cases stepped
    cases submits
    simp only [Pool.enqueueStore, Pool.openJob, List.mem_append, tagged]
    exact or_assoc.symm
  | _ => cases submits

/-! ## Workers -/

theorem mem_split_iff {before after : List (Worker τ)} {worker other : Worker τ} :
    other ∈ before ++ worker :: after ↔ other = worker ∨ other ∈ before ++ after := by
  simp only [List.mem_append, List.mem_cons]
  exact or_left_comm

/-- A worker that does not step is left where it stands. -/
theorem found_split {before after : List (Worker τ)} {worker : Worker τ} :
    (before ++ worker :: after)[before.length]? = some worker := by simp

section Step

variable {p next : Pool τ κ} {event : PoolEvent τ κ} {job : ℕ} {task : τ}

/-- Where a task that is live after a step comes from. -/
theorem live_of_step (stepped : p.step event = some next) (live : Live next job task) :
    Live p job task ∨
      (∃ submission, submission? event = some submission ∧ job = p.jobs.length ∧ task ∈ submission.tasks) ∨
      ∃ index worker earlier, event = .worker index (.work task) ∧ p.workers[index]? = some worker ∧
        worker.state = .running earlier job := by
  cases submits : submission? event with
  | some submission =>
    obtain ⟨_, _, workers, _⟩ := enqueue_spec stepped submits
    rcases live with queued | running
    · rcases (mem_enqueued stepped submits).mp queued with old | ⟨member, same⟩
      · exact .inl (.inl old)
      · exact .inr (.inl ⟨submission, rfl, same, member⟩)
    · exact .inl (.inr (workers ▸ running))
  | none =>
    cases event with
    | enqueueLoad | enqueueStore => cases submits
    | getFinished =>
      rw [(Pool.getFinished_cases stepped).2] at live
      exact .inl live
    | shutdown =>
      cases stepped
      rcases live with queued | running
      · simp [Pool.shutdown] at queued
      · exact .inl (.inr running)
    | worker index action =>
      obtain ⟨before, after, loadPriority, source, target, middle, workers, rfl, moves, rfl⟩ :=
        Pool.workerStep_cases stepped
      have others : ∀ worker ∈ before ++ after, worker.state = .running task job → Live p job task :=
        fun worker member running => .inr ⟨worker, by rw [workers, mem_split_iff]; exact .inr member, running⟩
      have stepping : (⟨loadPriority, source⟩ : Worker τ) ∈ p.workers := by
        rw [workers, mem_split_iff]
        exact .inl rfl
      have queues : (task, job) ∈ middle.loadQ ++ middle.storeQ → Live p job task := by
        intro queued
        cases moves with
        | take _ popped => exact .inl ((mem_popped popped).mpr (.inr queued))
        | _ => exact .inl queued
      rcases live with queued | ⟨worker, member, running⟩
      · exact .inl (queues queued)
      · rcases mem_split_iff.mp member with rfl | other
        · cases moves with
          | @take item _ going popped =>
            cases running
            exact .inl (.inl ((mem_popped popped).mpr (.inl rfl)))
          | @work earlier rest job' =>
            cases running
            refine .inr (.inr ⟨before.length, ⟨loadPriority, .running earlier job⟩, earlier, rfl, ?_, rfl⟩)
            rw [workers, found_split]
          | taskDone =>
            simp only at running
            split at running
            · split at running <;> cases running
            · cases running
          | _ => cases running
        · exact .inl (others worker other running)

/-- A live task stays live, unless its worker takes a step or it is cancelled. -/
theorem live_step (stepped : p.step event = some next) (live : Live p job task) :
    Live next job task ∨
      (∃ index action worker, event = .worker index action ∧ p.workers[index]? = some worker ∧
        worker.state = .running task job) ∨
      event = .shutdown ∧ 0 < p.queued job := by
  cases submits : submission? event with
  | some submission =>
    obtain ⟨_, _, workers, _⟩ := enqueue_spec stepped submits
    rcases live with queued | running
    · exact .inl (.inl ((mem_enqueued stepped submits).mpr (.inl queued)))
    · exact .inl (.inr (workers.symm ▸ running))
  | none =>
    cases event with
    | enqueueLoad | enqueueStore => cases submits
    | getFinished =>
      rw [(Pool.getFinished_cases stepped).2]
      exact .inl live
    | shutdown =>
      cases stepped
      rcases live with queued | running
      · exact .inr (.inr ⟨rfl, queued_pos_iff.mpr ⟨task, queued⟩⟩)
      · exact .inl (.inr running)
    | worker index action =>
      obtain ⟨before, after, loadPriority, source, target, middle, workers, rfl, moves, rfl⟩ :=
        Pool.workerStep_cases stepped
      rcases live with queued | ⟨worker, member, running⟩
      · cases moves with
        | @take item _ going popped =>
          rcases (mem_popped popped).mp queued with same | later
          · refine .inl (.inr ⟨_, mem_split_iff.mpr (.inl rfl), ?_⟩)
            rw [← same]
          · exact .inl (.inl later)
        | _ => exact .inl (.inl queued)
      · rw [workers] at member
        rcases mem_split_iff.mp member with rfl | other
        · refine .inr (.inl ⟨before.length, action, _, rfl, ?_, running⟩)
          rw [workers, found_split]
        · exact .inl (.inr ⟨worker, mem_split_iff.mpr (.inr other), running⟩)

/-- What the worker of a task does with it. -/
theorem live_of_working {index : ℕ} {action : WorkerAction τ} {worker : Worker τ}
    (stepped : p.step (.worker index action) = some next) (found : p.workers[index]? = some worker)
    (running : worker.state = .running task job) :
    (∃ rest, action = .work rest ∧ Live next job rest) ∨
      (action = .raise ∧ ∃ worker ∈ next.workers, worker.state = .unwinding task job) ∨
      action = .taskEnded job true := by
  obtain ⟨before, after, loadPriority, source, target, middle, workers, rfl, moves, rfl⟩ :=
    Pool.workerStep_cases stepped
  rw [workers, found_split] at found
  obtain rfl := Option.some.inj found
  cases running
  cases moves with
  | work => exact .inl ⟨_, rfl, .inr ⟨_, mem_split_iff.mpr (.inl rfl), rfl⟩⟩
  | raise => exact .inr (.inl ⟨rfl, _, mem_split_iff.mpr (.inl rfl), rfl⟩)
  | taskReturned => exact .inr (.inr rfl)

/-- A job is in flight only after it was submitted. -/
theorem inFlight_of_step (stepped : p.step event = some next) (inFlight : InFlight next job) :
    InFlight p job ∨ ∃ submission, submission? event = some submission ∧ job = p.jobs.length := by
  cases submits : submission? event with
  | some submission =>
    obtain ⟨_, queued, workers, _, _, finishedQ⟩ := enqueue_spec stepped submits
    rcases inFlight with waiting | held | finished
    · rw [queued] at waiting
      split at waiting
      · next fresh => exact .inr ⟨submission, rfl, fresh⟩
      · exact .inl (.inl waiting)
    · exact .inl (.inr (.inl (workers ▸ held)))
    · exact .inl (.inr (.inr (finishedQ ▸ finished)))
  | none =>
    cases event with
    | enqueueLoad | enqueueStore => cases submits
    | getFinished =>
      obtain ⟨queue, same⟩ := Pool.getFinished_cases stepped
      rw [same] at inFlight
      rcases inFlight with waiting | held | ⟨success, member⟩
      · exact .inl (.inl waiting)
      · exact .inl (.inr (.inl held))
      · exact .inl (.inr (.inr ⟨success, queue ▸ List.mem_cons_of_mem _ member⟩))
    | shutdown =>
      cases stepped
      rcases inFlight with waiting | held | finished
      · simp [Pool.shutdown, Pool.queued] at waiting
      · exact .inl (.inr (.inl held))
      · exact .inl (.inr (.inr finished))
    | worker index action =>
      left
      obtain ⟨before, after, loadPriority, source, target, middle, workers, rfl, moves, rfl⟩ :=
        Pool.workerStep_cases stepped
      have stepping : (⟨loadPriority, source⟩ : Worker τ) ∈ p.workers := by
        rw [workers, mem_split_iff]
        exact .inl rfl
      have held : holds job source = true → InFlight p job := fun holding => .inr (.inl ⟨_, stepping, holding⟩)
      rcases inFlight with waiting | ⟨worker, member, holding⟩ | ⟨success, member⟩
      · cases moves with
        | take _ popped =>
          have queued := Pool.pop_queued popped job
          simp only [Pool.queued] at waiting queued ⊢
          exact .inl (by simp only [Pool.queued]; omega)
        | _ => exact .inl waiting
      · rcases mem_split_iff.mp member with rfl | other
        · cases moves with
          | @take item _ going popped =>
            obtain rfl : item.2 = job := by simpa [holds] using holding
            exact .inl (queued_pos_iff.mpr ⟨item.1, (mem_popped popped).mpr (.inl rfl)⟩)
          | exit => simp [holds] at holding
          | @taskDone job' success state found =>
            apply held
            simp only at holding
            split at holding
            · split at holding <;> simpa [holds] using holding
            · simp [holds] at holding
          | reported => simp [holds] at holding
          | _ => exact held (by simpa [holds] using holding)
        · exact .inr (.inl ⟨worker, by rw [workers, mem_split_iff]; exact .inr other, holding⟩)
      · cases moves with
        | take _ popped =>
          refine .inr (.inr ⟨success, ?_⟩)
          rcases Pool.pop_cases popped with ⟨_, same⟩ | ⟨_, same⟩ <;> rw [same] at member <;> exact member
        | @reported job' success' =>
          rcases List.mem_append.mp member with old | new
          · exact .inr (.inr ⟨success, old⟩)
          · cases List.mem_singleton.mp new
            exact held (by simp [holds])
        | _ => exact .inr (.inr ⟨success, member⟩)

/-- A job that has lost a task never gets it back. -/
theorem lost_step (stepped : p.step event = some next) {past : List (PoolEvent τ κ)} (opened : job < p.jobs.length)
    (lost : Lost past p job) : Lost (past ++ [event]) next job := by
  rcases lost with raised | ⟨worker, member, task, unwinding⟩ | fewer
  · left
    rw [outcomes_snoc]
    exact List.mem_append_left _ raised
  · cases submits : submission? event with
    | some submission =>
      obtain ⟨_, _, workers, _⟩ := enqueue_spec stepped submits
      exact .inr (.inl ⟨worker, workers.symm ▸ member, task, unwinding⟩)
    | none =>
      cases event with
      | enqueueLoad | enqueueStore => cases submits
      | getFinished =>
        rw [(Pool.getFinished_cases stepped).2]
        exact .inr (.inl ⟨worker, member, task, unwinding⟩)
      | shutdown =>
        cases stepped
        exact .inr (.inl ⟨worker, member, task, unwinding⟩)
      | worker index action =>
        obtain ⟨before, after, loadPriority, source, target, middle, workers, rfl, moves, rfl⟩ :=
          Pool.workerStep_cases stepped
        rw [workers] at member
        rcases mem_split_iff.mp member with rfl | other
        · cases unwinding
          cases moves with
          | taskRaised =>
            left
            simp
        · exact .inr (.inl ⟨worker, mem_split_iff.mpr (.inr other), task, unwinding⟩)
  · refine .inr (.inr ?_)
    rcases ledger_step stepped past job with same | moved | ⟨_, _, fresh, _⟩ | ⟨_, cancelled⟩
    · have counts := congrArg (fun l : Ledger κ => (l.queued, l.running, l.ended, l.state)) same
      simp only [ledger, Prod.mk.injEq] at counts
      obtain ⟨queued, running, ended, state⟩ := counts
      rw [queued, running, ended, state]
      exact fewer
    · obtain ⟨total, _, nTasks, _⟩ := moved.total
      simp only [ledger] at total nTasks
      rw [total, nTasks]
      exact fewer
    · omega
    · have counts := congrArg (fun l : Ledger κ => (l.queued, l.running, l.ended, l.state)) cancelled
      simp only [ledger, Prod.mk.injEq] at counts
      obtain ⟨queued, running, ended, state⟩ := counts
      rw [queued, running, ended, state]
      omega

end Step

/-! ## Jobs that have run to their end -/

section Ledger

variable {p : Pool τ κ} {past : List (PoolEvent τ κ)} {job : ℕ}

/-- Cancelling a task loses it. -/
theorem lost_of_cancelled (balanced : (ledger past p job).Balanced) (queued : 0 < p.queued job) :
    Lost (past ++ [.shutdown]) p.shutdown job := by
  have tasks := balanced.tasks
  refine .inr (.inr ?_)
  simp only [ledger] at tasks
  simp only [Pool.shutdown, Pool.queued, List.append_nil, List.countP_nil, Pool.jobState]
  simp only [Pool.jobState] at tasks
  omega

/-- A job of which no task is left has nothing live, and has lost nothing unless a task raised. -/
theorem settled_of_finished {job : ℕ}
    (left : p.queued job = 0 ∧ running job p.workers = 0 ∧ ended job p.workers = 0)
    (all : (p.jobState job).completed = (p.jobState job).nTasks) (succeeded : (outcomes past job).all id = true) :
    (∀ task, ¬Live p job task) ∧ ¬Lost past p job := by
  obtain ⟨queued, noneRuns, noneEnds⟩ := left
  have unheld := List.countP_eq_zero.mp noneRuns
  constructor
  · rintro task (waiting | ⟨worker, member, running⟩)
    · have := queued_pos_iff.mpr ⟨task, waiting⟩
      omega
    · exact unheld worker member (by simp [running])
  · rintro (raised | ⟨worker, member, task, unwinding⟩ | fewer)
    · simpa using List.all_eq_true.mp succeeded false raised
    · exact unheld worker member (by simp [unwinding])
    · omega

/-- A worker that has called the callback of a job with success finds all of its tasks done. -/
theorem settled_of_inCallback (balanced : (ledger past p job).Balanced) {worker : Worker τ}
    (member : worker ∈ p.workers) (calling : worker.state = .inCallback job true) :
    (∀ task, ¬Live p job task) ∧ ¬Lost past p job ∧ true ∈ calls past job ∧ (p.jobState job).nTasks ≠ 0 := by
  have failures : (ledger past p job).failed ≤ (ledger past p job).ended := failed_le_ended job p.workers
  have listed : Finish.inCallback true ∈ (ledger past p job).finishing :=
    List.mem_filterMap.mpr ⟨worker, member, by simp [calling]⟩
  cases balanced.stage with
  | inCallback all some callback only wasCalled =>
    rw [only, List.mem_singleton, Finish.inCallback.injEq] at listed
    obtain ⟨left, _, conjunction⟩ := balanced.finished failures all
    obtain ⟨nothingLive, notLost⟩ := settled_of_finished left all (conjunction.trans listed.symm)
    refine ⟨nothingLive, notLost, ?_, some⟩
    have called : calls past job = [(p.jobState job).success] := wasCalled.1
    have success : true = (p.jobState job).success := listed
    rw [called, ← success]
    exact List.mem_singleton_self _
  | counting _ nobody => simp [nobody] at listed
  | completing _ _ _ only => simp [only] at listed
  | reporting _ _ _ only => simp [only] at listed
  | reported _ _ _ nobody => simp [nobody] at listed

/-- A job reported as a success has all of its tasks done. -/
theorem settled_of_reported (balanced : (ledger past p job).Balanced) (reported : true ∈ reports past job) :
    (∀ task, ¬Live p job task) ∧ ¬Lost past p job := by
  have failures : (ledger past p job).failed ≤ (ledger past p job).ended := failed_le_ended job p.workers
  have listed : true ∈ (ledger past p job).reports := reported
  cases balanced.stage with
  | reported all _ success _ result only =>
    rw [only, List.mem_singleton] at listed
    obtain ⟨left, _, conjunction⟩ := balanced.finished failures all
    refine settled_of_finished left all (conjunction.trans ?_)
    rcases result with ⟨_, _, _, same⟩ | ⟨_, _, ok, _, same⟩
    · rw [← same, ← listed]
    · rw [← listed] at same
      exact (Bool.and_eq_true_iff.mp same.symm).1
  | counting _ _ _ notReported => simp [notReported] at listed
  | completing _ _ _ _ _ notReported => simp [notReported] at listed
  | inCallback _ _ _ _ _ notReported => simp [notReported] at listed
  | reporting _ _ _ _ _ notReported => simp [notReported] at listed

/-- The callback of a job is called with success only when every task has ended in success. -/
theorem outcomes_of_called (balanced : (ledger past p job).Balanced) (called : true ∈ calls past job) :
    outcomes past job = List.replicate (p.jobState job).nTasks true := by
  have failures : (ledger past p job).failed ≤ (ledger past p job).ended := failed_le_ended job p.workers
  rcases balanced.called failures with notCalled | ⟨_, length, only⟩
  · have notCalled : calls past job = [] := notCalled
    simp [notCalled] at called
  · have length : (outcomes past job).length = (p.jobState job).nTasks := length
    have only : calls past job = [(outcomes past job).all id] := only
    rw [only, List.mem_singleton] at called
    refine List.eq_replicate_iff.mpr ⟨length, fun outcome member => ?_⟩
    exact List.all_eq_true.mp called.symm outcome member

end Ledger

end KVTiering.Soundness.ThreadPool
