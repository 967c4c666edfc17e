import KVTiering.Soundness.PoolAccounting

/-! # Draining the thread pool

A run without shutdown drains: the pool is idle exactly when every job is reported, an idle pool has
nothing queued and nothing running, and a pool with nothing queued and nothing running has reported every
job with tasks. While a job is outstanding, some worker has a step to take.
-/

namespace KVTiering.Soundness.ThreadPool

open Model

variable {τ κ : Type} {nReadThreads nWriteThreads : ℕ} {events : List (PoolEvent τ κ)} {p : Pool τ κ}

/-- Nothing is left in the pool exactly when nothing is left of any job. -/
theorem quiescent_iff : p.Quiescent ↔
    ∀ job, p.queued job = 0 ∧ ∀ worker ∈ p.workers, holds job worker.state = false := by
  constructor
  · rintro ⟨loadQ, storeQ, workers⟩ job
    refine ⟨by simp [Pool.queued, loadQ, storeQ], fun worker member => ?_⟩
    rcases workers worker member with state | state <;> simp [state, holds]
  · intro free
    have empty : p.loadQ ++ p.storeQ = [] := by
      apply List.eq_nil_iff_forall_not_mem.mpr
      intro item member
      have none_left := List.countP_eq_zero.mp (free item.2).1 item member
      simp at none_left
    obtain ⟨loadQ, storeQ⟩ := List.append_eq_nil_iff.mp empty
    refine ⟨loadQ, storeQ, fun worker member => ?_⟩
    have unheld := fun job => (free job).2 worker member
    cases state : worker.state with
    | waiting => exact .inl rfl
    | exited => exact .inr rfl
    | running task job | unwinding task job | ended job success | completing job success
    | inCallback job success | reporting job success =>
      simpa [state, holds] using unheld job

/-- Only jobs that were enqueued have anything queued or in the hands of a worker. -/
theorem opened_of_active (run : Run (Steps Pool.step) (Pool.init nReadThreads nWriteThreads) events p)
    (counted : ∀ event ∈ events, Counted event) {job : ℕ}
    (active : ¬ (p.queued job = 0 ∧ ∀ worker ∈ p.workers, holds job worker.state = false)) :
    job < p.jobs.length := by
  by_contra unopened
  have blank := (balanced_of_run run counted job).unopened (jobState_unopened (by omega))
  have queued : p.queued job = 0 := congrArg Ledger.queued blank
  have running : running job p.workers = 0 := congrArg Ledger.running blank
  have ended : ended job p.workers = 0 := congrArg Ledger.ended blank
  have finishing : finishing job p.workers = [] := congrArg Ledger.finishing blank
  exact active ⟨queued, (idle_iff job p.workers).mpr ⟨running, ended, finishing⟩⟩

/-- A pool whose jobs are all reported has nothing left in it. -/
theorem quiescent_of_reported (run : Run (Steps Pool.step) (Pool.init nReadThreads nWriteThreads) events p)
    (counted : ∀ event ∈ events, Counted event)
    (reported : ∀ job < p.jobs.length, reports events job ≠ []) : p.Quiescent := by
  apply quiescent_iff.mpr
  intro job
  by_contra active
  have opened := opened_of_active run counted active
  have balanced := balanced_of_run run counted job
  rcases balanced.reported (failed_le_ended job p.workers) with notReported | ⟨_, _, _, ⟨queued, nobody⟩, _⟩
  · exact reported job opened notReported
  · exact active ⟨queued, (idle_iff job p.workers).mpr nobody⟩

/-- In a pool that has not been shut down, no worker has left. -/
theorem not_exited_of_run (run : Run (Steps Pool.step) (Pool.init nReadThreads nWriteThreads) events p)
    (going : p.stop = false) : ∀ worker ∈ p.workers, worker.state ≠ .exited := by
  induction run with
  | nil => exact fun worker member => by simp [workers_init nReadThreads nWriteThreads member]
  | @snoc past source final event before moved ih =>
    have known := ih (stop_of_step moved going).1
    cases event with
    | enqueueLoad | enqueueStore => rwa [(enqueue_spec moved rfl).2.2.1]
    | getFinished => rwa [(Pool.getFinished_cases moved).2]
    | shutdown => cases moved; cases going
    | worker index action =>
      obtain ⟨before, after, _, _, target, middle, workers, rfl, moves, rfl⟩ := Pool.workerStep_cases moved
      rw [workers] at known
      have notExited : target ≠ .exited := by
        cases moves with
        | exit stopped => simp [stopped] at going
        | taskDone => split <;> [split <;> simp; simp]
        | _ => simp
      intro worker member
      simp only [List.mem_append, List.mem_cons] at member
      rcases member with inBefore | rfl | inAfter
      · exact known worker (by simp [inBefore])
      · exact notExited
      · exact known worker (by simp [inAfter])

theorem exists_pop (queued : ¬ (p.loadQ = [] ∧ p.storeQ = [])) (loadPriority : Bool) :
    ∃ popped, p.pop loadPriority = some popped := by
  cases loadPriority <;> cases load : p.loadQ <;> cases store : p.storeQ <;> simp_all [Pool.pop]

/-- The steps of a worker up to the end of its task, `work` apart, counted from above. -/
def remaining : WorkerState τ → ℕ
  | .running _ _ => 7
  | .unwinding _ _ => 6
  | .ended _ _ => 5
  | .completing _ _ => 4
  | .inCallback _ _ => 3
  | .reporting _ _ => 2
  | .waiting => 1
  | .exited => 0

/-- An upper bound on the worker steps that the pool has in front of it, `work` apart. -/
def outstanding (p : Pool τ κ) : ℕ :=
  7 * (p.loadQ.length + p.storeQ.length) + (p.workers.map fun worker => remaining worker.state).sum

/-- Every step of a worker other than work on a task brings the pool closer to being drained. -/
theorem outstanding_step {next : Pool τ κ} {index : ℕ} {action : WorkerAction τ}
    (stepped : p.workerStep index action = some next) (progress : ∀ rest, action ≠ .work rest) :
    outstanding next < outstanding p := by
  obtain ⟨before, after, loadPriority, source, target, middle, workers, rfl, moves, rfl⟩ :=
    Pool.workerStep_cases stepped
  have closer : 7 * (middle.loadQ.length + middle.storeQ.length) + remaining target <
      7 * (p.loadQ.length + p.storeQ.length) + remaining source := by
    cases moves with
    | take _ popped =>
      rcases Pool.pop_cases popped with ⟨queue, same⟩ | ⟨queue, same⟩ <;> rw [same, queue] <;>
        simp [remaining] <;> omega
    | @work task rest => exact absurd rfl (progress rest)
    | taskDone => split <;> [split <;> simp [remaining]; simp [remaining]]
    | _ => simp [remaining]
  simp only [outstanding, workers, List.map_append, List.map_cons, List.sum_append, List.sum_cons]
  omega

/-- A worker that holds a job that was enqueued has a step to take. -/
theorem exists_move {worker : Worker τ} (busy : worker.state ≠ .waiting) (staying : worker.state ≠ .exited)
    (opened : ∀ job, holds job worker.state = true → job < p.jobs.length) :
    ∃ action moved, p.move worker.loadPriority worker.state action = some moved ∧
      ∀ rest, action ≠ .work rest := by
  cases state : worker.state with
  | waiting => exact absurd state busy
  | exited => exact absurd state staying
  | running task job => exact ⟨.taskEnded job true, by simp [Pool.move]⟩
  | unwinding task job => exact ⟨.taskEnded job false, by simp [Pool.move]⟩
  | ended job success =>
    have inside := opened job (by simp [state, holds])
    exact ⟨.taskDone job success, by simp [Pool.move, List.getElem?_eq_getElem inside]⟩
  | completing job success => exact ⟨.called job success, by simp [Pool.move]⟩
  | inCallback job success => exact ⟨.returned job true, by simp [Pool.move]⟩
  | reporting job success => exact ⟨.reported job success, by simp [Pool.move]⟩

/-- No deadlock: while anything is left in the pool, one of its workers has a step to take. -/
theorem exists_workerStep (run : Run (Steps Pool.step) (Pool.init nReadThreads nWriteThreads) events p)
    (counted : ∀ event ∈ events, Counted event) (going : p.stop = false) (active : ¬ p.Quiescent)
    (staffed : p.workers ≠ []) :
    ∃ index action next, p.workerStep index action = some next ∧ ∀ rest, action ≠ .work rest := by
  have staying := not_exited_of_run run going
  have able : ∃ worker ∈ p.workers, ∃ action moved,
      p.move worker.loadPriority worker.state action = some moved ∧ ∀ rest, action ≠ .work rest := by
    by_cases busy : ∃ worker ∈ p.workers, worker.state ≠ .waiting
    · obtain ⟨worker, member, notWaiting⟩ := busy
      refine ⟨worker, member, exists_move notWaiting (staying worker member) fun job held => ?_⟩
      exact opened_of_active run counted fun free => by simp [free.2 worker member] at held
    · -- every worker waits, so a task is queued, and any of them can take it
      push Not at busy
      obtain ⟨worker, rest, workers⟩ := List.exists_cons_of_ne_nil staffed
      have member : worker ∈ p.workers := by simp [workers]
      have queued : ¬ (p.loadQ = [] ∧ p.storeQ = []) := fun ⟨loadQ, storeQ⟩ =>
        active ⟨loadQ, storeQ, fun worker member => .inl (busy worker member)⟩
      obtain ⟨popped, found⟩ := exists_pop queued worker.loadPriority
      exact ⟨worker, member, .take, by simp [busy worker member, Pool.move, going, found]⟩
  obtain ⟨worker, member, action, moved, enabled, progress⟩ := able
  obtain ⟨index, inside, same⟩ := List.getElem_of_mem member
  refine ⟨index, action, moved.1.setWorker index ⟨worker.loadPriority, moved.2⟩, ?_, progress⟩
  simp only [Pool.workerStep, List.getElem?_eq_getElem inside, same, Option.bind_some, enabled, Option.map_some]

/-- The workers of a pool that is not shut down can drain it from every state. -/
theorem exists_drain (run : Run (Steps Pool.step) (Pool.init nReadThreads nWriteThreads) events p)
    (counted : ∀ event ∈ events, Counted event) (going : p.stop = false) (staffed : p.workers ≠ []) :
    ∃ more final, Run (Steps Pool.step) p more final ∧
      (∀ event ∈ more, ∃ index action, event = .worker index action) ∧ final.Quiescent := by
  induction size : outstanding p using Nat.strong_induction_on generalizing p events with
  | _ bound ih =>
    by_cases drained : p.Quiescent
    · exact ⟨[], p, .nil, by simp, drained⟩
    · obtain ⟨index, action, next, stepped, progress⟩ := exists_workerStep run counted going drained staffed
      have moved : Steps Pool.step p (.worker index action) next := stepped
      have stillStaffed : next.workers ≠ [] := by
        obtain ⟨_, _, _, _, _, _, _, _, _, rfl⟩ := Pool.workerStep_cases stepped
        simp
      have stillCounted : ∀ event ∈ events ++ [.worker index action], Counted event := by
        intro event member submission submits
        rcases List.mem_append.mp member with old | new
        · exact counted event old submission submits
        · rw [List.mem_singleton.mp new] at submits
          cases submits
      obtain ⟨more, final, rest, workerSteps, quiescent⟩ :=
        ih (outstanding next) (size ▸ outstanding_step stepped progress) (.snoc run moved) stillCounted
          (stop_step moved (by simp) ▸ going) stillStaffed rfl
      refine ⟨.worker index action :: more, final, (Run.single moved).append rest, ?_, quiescent⟩
      simpa using workerSteps

/-- A job is enqueued with as many tasks as it announces, and at least one. -/
def Submitted (event : PoolEvent τ κ) : Prop :=
  ∀ submission, submission? event = some submission →
    submission.nTasks = submission.tasks.length ∧ 1 ≤ submission.nTasks

theorem nTasks_of_run (run : Run (Steps Pool.step) (Pool.init nReadThreads nWriteThreads) events p)
    (submitted : ∀ event ∈ events, Submitted event) {job : ℕ} (opened : job < p.jobs.length) :
    (p.jobState job).nTasks ≠ 0 := by
  rw [length_jobs_of_run run] at opened
  obtain ⟨_, nTasks, _⟩ := jobState_of_run run (List.getElem?_eq_getElem opened)
  obtain ⟨event, member, submits⟩ := List.mem_filterMap.mp (List.getElem_mem opened)
  have announced := (submitted event member _ submits).2
  omega

/-- Pool job accounting: over every run without shutdown whose jobs are enqueued with their tasks, each job
is accounted for, `_inflight_jobs` counts the jobs not yet appended, the finished queue loses and invents no
result, an idle pool has nothing left to do and has a result for every job, a pool with nothing left to do
has called every callback and appended every job once, and the workers can always get there. -/
theorem job_accounting (run : Run (Steps Pool.step) (Pool.init nReadThreads nWriteThreads) events p)
    (submitted : ∀ event ∈ events, Submitted event) (going : PoolEvent.shutdown ∉ events) :
    (∀ job < p.jobs.length, Accounted events p job) ∧
      p.inflightJobs = (unreported events p).card ∧
      handedOut events ++ p.finishedQ = appended events ∧
      (p.idle → p.Quiescent ∧ ∀ job < p.jobs.length, ∃ success, reports events job = [success] ∧
        ((job, success) ∈ handedOut events ∨ (job, success) ∈ p.finishedQ)) ∧
      (p.Quiescent → ∀ job < p.jobs.length, (∃ success, reports events job = [success]) ∧
        ((p.jobState job).onComplete.isSome = true →
          calls events job = [(outcomes events job).all id])) ∧
      (p.workers ≠ [] → ∃ more final, Run (Steps Pool.step) p more final ∧
        (∀ event ∈ more, ∃ index action, event = .worker index action) ∧ final.Quiescent) := by
  have counted : ∀ event ∈ events, Counted event := fun event member submission submits =>
    (submitted event member submission submits).1
  have going := going_of_run run going
  have accounted : ∀ job < p.jobs.length, Accounted events p job := fun job opened =>
    accounted_of_run run counted going (nTasks_of_run run submitted opened)
  have inflight := inflight_of_run run going
  have finished := finished_of_run run
  refine ⟨accounted, inflight, finished, fun idle => ?_, fun quiescent job opened => ?_,
    exists_drain run counted going⟩
  · have none_left : unreported events p = ∅ :=
      Finset.card_eq_zero.mp (Nat.cast_eq_zero.mp (inflight.symm.trans idle))
    have reported : ∀ job < p.jobs.length, reports events job ≠ [] := fun job opened notReported => by
      simpa [none_left] using mem_unreported.mpr ⟨opened, notReported⟩
    refine ⟨quiescent_of_reported run counted reported, fun job opened => ?_⟩
    obtain ⟨success, wasReported, _⟩ := (accounted job opened).appended.resolve_left (reported job opened)
    have member : (job, success) ∈ appended events := mem_reports_iff.mp (by simp [wasReported])
    rw [← finished] at member
    exact ⟨success, wasReported, List.mem_append.mp member⟩
  · have free := quiescent_iff.mp quiescent job
    have reported : reports events job ≠ [] := fun notReported => by
      rcases (accounted job opened).pending notReported with queued | ⟨worker, member, held⟩
      · omega
      · simp [free.2 worker member] at held
    obtain ⟨success, wasReported, _, result⟩ := (accounted job opened).appended.resolve_left reported
    refine ⟨⟨success, wasReported⟩, fun callback => ?_⟩
    rcases result with ⟨noCallback, _⟩ | ⟨_, wasCalled, _⟩
    · simp [noCallback] at callback
    · exact wasCalled

/-- One worker runs a store job of two tasks, of which the second one raises. -/
def drainTape : List (PoolEvent Unit Unit) :=
  [.enqueueStore 7 2 [(), ()] (some ()), .worker 0 .take, .worker 0 (.taskEnded 0 true),
    .worker 0 (.taskDone 0 true), .worker 0 .take, .worker 0 .raise, .worker 0 (.taskEnded 0 false),
    .worker 0 (.taskDone 0 false), .worker 0 (.called 0 false), .worker 0 (.returned 0 true),
    .worker 0 (.reported 0 false)]

theorem job_accounting_drainTape : ∃ p, Run (Steps Pool.step) (Pool.init 1 0) drainTape p ∧
    Accounted drainTape p 0 ∧ p.inflightJobs = (unreported drainTape p).card := by
  have run : Run (Steps Pool.step) (Pool.init 1 0) drainTape
      ⟨[], [], false, [⟨true, .waiting⟩], [(0, false)], 0, [⟨7, 2, 2, false, some ()⟩]⟩ := Run.of_replay rfl
  have submitted : ∀ event ∈ drainTape, Submitted event := by
    intro event member submission submits
    simp only [drainTape, List.mem_cons, List.not_mem_nil, or_false] at member
    rcases member with rfl | rfl | rfl | rfl | rfl | rfl | rfl | rfl | rfl | rfl | rfl <;> cases submits
    exact ⟨rfl, by decide⟩
  have accounting := job_accounting run submitted (by simp [drainTape])
  exact ⟨_, run, accounting.1 0 (by decide), accounting.2.1⟩

end KVTiering.Soundness.ThreadPool
