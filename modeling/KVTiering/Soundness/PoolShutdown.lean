import KVTiering.Soundness.PoolAccounting

/-! # Shutting the thread pool down

`shutdown` cancels the queued tasks and resets `_inflight_jobs`, while the workers finish the tasks they
hold. A job whose last tasks are already in their hands is still completed and reported, and its report
counts `_inflight_jobs` down from zero. The pool is idle after its workers have left exactly when there was
no such job.
-/

namespace KVTiering.Soundness.ThreadPool

open Model

variable {τ κ : Type} {nReadThreads nWriteThreads : ℕ}

/-- A worker is finishing the job, or all tasks that the job still counts are in the hands of workers. -/
def LastTaken (p : Pool τ κ) (job : ℕ) : Prop :=
  finishing job p.workers ≠ [] ∨
    (p.jobState job).completed < (p.jobState job).nTasks ∧
      (p.jobState job).nTasks ≤
        (p.jobState job).completed + running job p.workers + ended job p.workers

instance (p : Pool τ κ) (job : ℕ) : Decidable (LastTaken p job) := inferInstanceAs (Decidable (_ ∨ _))

/-- The events that follow a `shutdown`: steps of the workers, and results handed out. -/
def Leaving : PoolEvent τ κ → Prop
  | .worker _ _ => True
  | .getFinished _ _ => True
  | _ => False

/-- While the workers leave, the tasks of a job neither come back nor get lost. -/
theorem ledger_leaving {more : List (PoolEvent τ κ)} {s p : Pool τ κ} (events : List (PoolEvent τ κ))
    (after : Run (Steps Pool.step) s.shutdown more p) (leaving : ∀ event ∈ more, Leaving event) (job : ℕ) :
    (ledger (events ++ [.shutdown] ++ more) p job).queued = 0 ∧
      running job p.workers + ended job p.workers + (p.jobState job).completed =
        running job s.workers + ended job s.workers + (s.jobState job).completed ∧
      (p.jobState job).nTasks = (s.jobState job).nTasks := by
  induction after with
  | nil => exact ⟨by simp [ledger, Pool.shutdown, Pool.queued], rfl, rfl⟩
  | @snoc past source final event before moved ih =>
    obtain ⟨queued, tasks, nTasks⟩ := ih fun event member => leaving event (by simp [member])
    rw [← List.append_assoc]
    rcases ledger_step moved (events ++ [.shutdown] ++ past) job with same | stepped |
      ⟨submission, submits, _⟩ | ⟨rfl, _⟩
    · rw [same]
      have running : running job final.workers = running job source.workers := congrArg Ledger.running same
      have ended : ended job final.workers = ended job source.workers := congrArg Ledger.ended same
      have state : final.jobState job = source.jobState job := congrArg Ledger.state same
      rw [running, ended, state]
      exact ⟨queued, tasks, nTasks⟩
    · obtain ⟨total, _, sameTasks, _⟩ := stepped.total
      have drained := stepped.queued_le
      simp only [ledger] at total sameTasks drained queued ⊢
      omega
    · have allowed := leaving event (by simp)
      cases event <;> simp_all [Leaving, submission?]
    · exact (leaving .shutdown (by simp)).elim

/-- The reports of a job that come after `shutdown`. -/
theorem reports_leaving {events more : List (PoolEvent τ κ)} {s p : Pool τ κ}
    (run : Run (Steps Pool.step) (Pool.init nReadThreads nWriteThreads) events s)
    (after : Run (Steps Pool.step) s.shutdown more p) (leaving : ∀ event ∈ more, Leaving event)
    (exited : ∀ worker ∈ p.workers, worker.state = .exited) (job : ℕ) :
    reports more job ≠ [] ↔ LastTaken s job := by
  have shutdown : Steps Pool.step s .shutdown s.shutdown := rfl
  have start := (tallied_of_run run job).length
  have final := (tallied_of_run ((Run.snoc run shutdown).append after) job).length
  obtain ⟨_, tasks, nTasks⟩ := ledger_leaving events after leaving job
  obtain ⟨noneRuns, noneEnds, noneFinishes⟩ := (idle_iff job p.workers).mp fun worker member => by
    simp [exited worker member, holds]
  have split : reports (events ++ [.shutdown] ++ more) job = reports events job ++ reports more job := by
    simp [reports, List.filterMap_cons]
  simp only [ledger, split, noneFinishes, nTasks, List.length_append, List.length_nil] at start final
  rw [noneRuns, noneEnds] at tasks
  simp only [LastTaken, ne_eq, ← List.length_eq_zero_iff]
  -- the counter of the job passes its number of tasks before `shutdown`, after it, or never
  omega

/-- After `shutdown`, `_inflight_jobs` counts the reports that follow, downwards. -/
theorem inflight_leaving {more : List (PoolEvent τ κ)} {s p : Pool τ κ}
    (after : Run (Steps Pool.step) s.shutdown more p) (leaving : ∀ event ∈ more, Leaving event) :
    p.inflightJobs = -((appended more).length : ℤ) := by
  induction after with
  | nil => rfl
  | @snoc past source final event before moved ih =>
    have known := ih fun event member => leaving event (by simp [member])
    have allowed := leaving event (by simp)
    rw [appended_snoc, List.length_append, Nat.cast_add, neg_add, ← known]
    cases event with
    | enqueueLoad | enqueueStore | shutdown => exact allowed.elim
    | getFinished => rw [(Pool.getFinished_cases moved).2]; simp
    | worker index action =>
      obtain ⟨_, _, ⟨job, success, rfl, _, inflight, _⟩ | ⟨silent, inflight, _⟩⟩ := workerStep_counters moved
      · rw [inflight]; simp; omega
      · rw [inflight]
        cases action <;> simp_all

/-- The pool is idle once its workers have left exactly when, as `shutdown` ran, no job had its last tasks in
the hands of the workers. -/
theorem shutdown_idle_iff {events more : List (PoolEvent τ κ)} {s p : Pool τ κ}
    (run : Run (Steps Pool.step) (Pool.init nReadThreads nWriteThreads) events s)
    (after : Run (Steps Pool.step) s.shutdown more p) (leaving : ∀ event ∈ more, Leaving event)
    (exited : ∀ worker ∈ p.workers, worker.state = .exited) : p.idle ↔ ∀ job, ¬ LastTaken s job := by
  rw [Pool.idle, inflight_leaving after leaving, neg_eq_zero, Nat.cast_eq_zero, List.length_eq_zero_iff]
  constructor
  · intro none job taken
    obtain ⟨success, member⟩ := List.exists_mem_of_ne_nil _ ((reports_leaving run after leaving exited job).mpr taken)
    simpa [none] using mem_reports_iff.mp member
  · intro none
    refine List.eq_nil_iff_forall_not_mem.mpr fun ⟨job, success⟩ member => none job ?_
    exact (reports_leaving run after leaving exited job).mp (List.ne_nil_of_mem (mem_reports_iff.mpr member))

/-- A worker has taken a load job of one task. -/
def takenTape : List (PoolEvent Unit Unit) := [.enqueueLoad 0 1 [()], .worker 0 .take]

/-- The worker finishes the task and its job, and leaves. -/
def leavingTape : List (PoolEvent Unit Unit) :=
  [.worker 0 (.taskEnded 0 true), .worker 0 (.taskDone 0 true), .worker 0 (.reported 0 true), .worker 0 .exit]

/-- The reset counter is counted down by the job that `shutdown` found running, and stays below zero. -/
theorem shutdown_not_idle : ∃ s p : Pool Unit Unit,
    Run (Steps Pool.step) (Pool.init 1 0) takenTape s ∧ Run (Steps Pool.step) s.shutdown leavingTape p ∧
      (∀ worker ∈ p.workers, worker.state = .exited) ∧ p.inflightJobs = -1 ∧ ¬ p.idle := by
  refine ⟨⟨[], [], false, [⟨true, .running () 0⟩], [], 1, [⟨0, 1, 0, true, none⟩]⟩,
    ⟨[], [], true, [⟨true, .exited⟩], [(0, true)], -1, [⟨0, 1, 1, true, none⟩]⟩,
    Run.of_replay rfl, Run.of_replay rfl, by simp, rfl, by simp [Pool.idle]⟩

/-- Two tasks, of which the worker has taken one: the job is cancelled with its second task. -/
def cancelledTape : List (PoolEvent Unit Unit) := [.enqueueLoad 0 2 [(), ()], .worker 0 .take]

theorem shutdown_idle_iff_cancelled : ∃ s p : Pool Unit Unit,
    Run (Steps Pool.step) (Pool.init 1 0) cancelledTape s ∧
      Run (Steps Pool.step) s.shutdown
        [.worker 0 (.taskEnded 0 true), .worker 0 (.taskDone 0 true), .worker 0 .exit] p ∧ p.idle := by
  have run : Run (Steps Pool.step) (Pool.init 1 0) cancelledTape
      ⟨[((), 0)], [], false, [⟨true, .running () 0⟩], [], 1, [⟨0, 2, 0, true, none⟩]⟩ := Run.of_replay rfl
  have after : Run (Steps Pool.step)
      (Pool.shutdown ⟨[((), 0)], [], false, [⟨true, .running () 0⟩], [], 1, [⟨0, 2, 0, true, none⟩]⟩)
      [.worker 0 (.taskEnded 0 true), .worker 0 (.taskDone 0 true), .worker 0 .exit]
      (⟨[], [], true, [⟨true, .exited⟩], [], 0, [⟨0, 2, 1, true, none⟩]⟩ : Pool Unit Unit) :=
    Run.of_replay rfl
  refine ⟨_, _, run, after, ?_⟩
  apply (shutdown_idle_iff run after (by simp [Leaving]) (by simp)).mpr
  intro job
  cases job with
  | zero => decide
  | succ job => simp [LastTaken, finishing, Pool.jobState]

end KVTiering.Soundness.ThreadPool
