import KVTiering.Model.ThreadPool
import Mathlib.Data.List.Basic

/-! # The ledger of one job

A `Ledger` is what the pool knows about a single job: its `JobState`, how many of its tasks are queued,
running or ended but not yet counted, which workers are finishing it, and what has been observed of it so
far. Every step of the pool is, for each job, one step of this small machine or no change at all. A
balanced ledger counts every task once, and has at most one worker finishing the job.
-/

namespace KVTiering.Soundness

open Model

/-- Where a worker stands between counting the last task of a job and reporting the job. -/
inductive Finish where
  | completing (success : Bool)
  | inCallback (success : Bool)
  | reporting (success : Bool)
deriving DecidableEq, Repr

@[ext] structure Ledger (κ : Type) where
  state : JobState κ
  queued : ℕ
  running : ℕ
  ended : ℕ
  failed : ℕ
  finishing : List Finish
  outcomes : List Bool
  calls : List Bool
  returns : List Bool
  reports : List Bool

namespace Ledger

variable {κ : Type}

/-- What `task_done` makes of the job once its last task is counted. -/
def finishOf (state : JobState κ) (success : Bool) : List Finish :=
  if (state.taskDone success).2 then
    if (state.taskDone success).1.onComplete.isSome then [.completing (state.taskDone success).1.success]
    else [.reporting (state.taskDone success).1.success]
  else []

/-- One step of a worker on the job; everything the steps do not name is the same before and after. -/
inductive Step : Ledger κ → Ledger κ → Prop
  | take (l : Ledger κ) : Step { l with queued := l.queued + 1 } { l with running := l.running + 1 }
  | taskReturned (l : Ledger κ) : Step { l with running := l.running + 1 }
      { l with ended := l.ended + 1, outcomes := l.outcomes ++ [true] }
  | taskRaised (l : Ledger κ) : Step { l with running := l.running + 1 }
      { l with ended := l.ended + 1, failed := l.failed + 1, outcomes := l.outcomes ++ [false] }
  | taskDone (l : Ledger κ) (success : Bool) (before after : List Finish) :
      Step { l with
          ended := l.ended + 1
          failed := l.failed + if success then 0 else 1
          finishing := before ++ after }
        { l with
          state := (l.state.taskDone success).1
          finishing := before ++ finishOf l.state success ++ after }
  | called (l : Ledger κ) (success : Bool) (before after : List Finish) :
      Step { l with finishing := before ++ .completing success :: after }
        { l with finishing := before ++ .inCallback success :: after, calls := l.calls ++ [success] }
  | returned (l : Ledger κ) (success ok : Bool) (before after : List Finish) :
      Step { l with finishing := before ++ .inCallback success :: after }
        { l with
          finishing := before ++ .reporting (success && ok) :: after
          returns := l.returns ++ [ok] }
  | reported (l : Ledger κ) (success : Bool) (before after : List Finish) :
      Step { l with finishing := before ++ .reporting success :: after }
        { l with finishing := before ++ after, reports := l.reports ++ [success] }

/-- The result that is reported: the conjunction of the outcomes, and the callback not raising. -/
def Result (l : Ledger κ) (success : Bool) : Prop :=
  (l.state.onComplete = none ∧ l.calls = [] ∧ l.returns = [] ∧ success = l.state.success) ∨
    (l.state.onComplete.isSome = true ∧ l.calls = [l.state.success] ∧
      ∃ ok, l.returns = [ok] ∧ success = (l.state.success && ok))

/-- How far the job has come. -/
inductive Stage (l : Ledger κ) : Prop
  | counting (pending : l.state.completed < l.state.nTasks ∨ l.state.nTasks = 0)
      (nobody : l.finishing = []) (notCalled : l.calls = [] ∧ l.returns = []) (notReported : l.reports = [])
  | completing (all : l.state.completed = l.state.nTasks) (some : l.state.nTasks ≠ 0)
      (callback : l.state.onComplete.isSome = true) (worker : l.finishing = [.completing l.state.success])
      (notCalled : l.calls = [] ∧ l.returns = []) (notReported : l.reports = [])
  | inCallback (all : l.state.completed = l.state.nTasks) (some : l.state.nTasks ≠ 0)
      (callback : l.state.onComplete.isSome = true) (worker : l.finishing = [.inCallback l.state.success])
      (wasCalled : l.calls = [l.state.success] ∧ l.returns = []) (notReported : l.reports = [])
  | reporting (all : l.state.completed = l.state.nTasks) (some : l.state.nTasks ≠ 0) (success : Bool)
      (worker : l.finishing = [.reporting success]) (result : l.Result success)
      (notReported : l.reports = [])
  | reported (all : l.state.completed = l.state.nTasks) (some : l.state.nTasks ≠ 0) (success : Bool)
      (nobody : l.finishing = []) (result : l.Result success) (wasReported : l.reports = [success])

/-- Every task is counted at most once, failures included, and the job is finished at most once. -/
structure Balanced (l : Ledger κ) : Prop where
  counted : l.outcomes.length = l.state.completed + l.ended
  conjunction : l.outcomes.all id = (l.state.success && decide (l.failed = 0))
  tasks : l.queued + l.running + l.ended + l.state.completed ≤ l.state.nTasks
  stage : l.Stage

theorem Stage.of_pending {l : Ledger κ} (stage : l.Stage) (pending : l.state.completed < l.state.nTasks) :
    l.finishing = [] ∧ (l.calls = [] ∧ l.returns = []) ∧ l.reports = [] := by
  cases stage with
  | counting _ nobody notCalled notReported => exact ⟨nobody, notCalled, notReported⟩
  | completing all => omega
  | inCallback all => omega
  | reporting all => omega
  | reported all => omega

/-- A ledger with the same job and observations is at the same stage. -/
theorem Stage.congr {l m : Ledger κ} (stage : l.Stage) (state : m.state = l.state)
    (finishing : m.finishing = l.finishing) (calls : m.calls = l.calls) (returns : m.returns = l.returns)
    (reports : m.reports = l.reports) : m.Stage := by
  obtain ⟨_, _, _, _, _, _, _, _, _, _⟩ := l
  obtain ⟨_, _, _, _, _, _, _, _, _, _⟩ := m
  simp only at state finishing calls returns reports
  subst state finishing calls returns reports
  cases stage with
  | counting pending nobody notCalled notReported => exact .counting pending nobody notCalled notReported
  | completing all some callback worker notCalled notReported =>
    exact .completing all some callback worker notCalled notReported
  | inCallback all some callback worker wasCalled notReported =>
    exact .inCallback all some callback worker wasCalled notReported
  | reporting all some success worker result notReported =>
    exact .reporting all some success worker result notReported
  | reported all some success nobody result wasReported =>
    exact .reported all some success nobody result wasReported

/-- Counting a task: the last one hands the job to this worker, the others leave the job counting. -/
theorem Stage.taskDone {l : Ledger κ} {success : Bool} {before after : List Finish}
    (stage : Stage { l with finishing := before ++ after })
    (pending : l.state.completed < l.state.nTasks) :
    Stage { l with
      state := (l.state.taskDone success).1
      finishing := before ++ finishOf l.state success ++ after } := by
  obtain ⟨nobody, notCalled, notReported⟩ := stage.of_pending pending
  obtain ⟨rfl, rfl⟩ := List.append_eq_nil_iff.mp nobody
  by_cases last : l.state.completed + 1 = l.state.nTasks
  · cases callback : l.state.onComplete with
    | none =>
      refine .reporting last (by simp [JobState.taskDone]; omega) (l.state.success && success) ?_
        (.inl ⟨callback, notCalled.1, notCalled.2, rfl⟩) notReported
      simp [finishOf, JobState.taskDone, last, callback]
    | some plan =>
      refine .completing last (by simp [JobState.taskDone]; omega) (by simp [JobState.taskDone, callback]) ?_
        notCalled notReported
      simp [finishOf, JobState.taskDone, last, callback]
  · refine .counting (.inl (by simp [JobState.taskDone]; omega)) ?_ notCalled notReported
    simp [finishOf, JobState.taskDone, last]

/-- Every step of the machine keeps the ledger balanced. -/
theorem Balanced.step {l m : Ledger κ} (balanced : l.Balanced) (moved : Step l m) : m.Balanced := by
  obtain ⟨counted, conjunction, tasks, stage⟩ := balanced
  cases moved with
  | take l =>
    exact ⟨counted, conjunction, by simp only at tasks ⊢; omega, stage.congr rfl rfl rfl rfl rfl⟩
  | taskReturned l =>
    refine ⟨?_, ?_, by simp only at tasks ⊢; omega, stage.congr rfl rfl rfl rfl rfl⟩
    · simp only [List.length_append, List.length_singleton] at counted ⊢; omega
    · simpa using conjunction
  | taskRaised l =>
    refine ⟨?_, ?_, by simp only at tasks ⊢; omega, stage.congr rfl rfl rfl rfl rfl⟩
    · simp only [List.length_append, List.length_singleton] at counted ⊢; omega
    · simp
  | taskDone l success before after =>
    have pending : l.state.completed < l.state.nTasks := by simp only at tasks; omega
    have uncounted : Stage { l with finishing := before ++ after } := stage.congr rfl rfl rfl rfl rfl
    refine ⟨?_, ?_, ?_, (uncounted.taskDone pending).congr rfl rfl rfl rfl rfl⟩
    · simp only [JobState.taskDone] at counted ⊢; omega
    · rw [conjunction]
      cases success <;> simp [JobState.taskDone]
    · simp only [JobState.taskDone] at tasks ⊢; omega
  | called l success before after =>
    refine ⟨counted, conjunction, tasks, ?_⟩
    cases stage with
    | completing all some callback worker notCalled notReported =>
      obtain ⟨rfl, same, rfl⟩ : before = [] ∧ success = l.state.success ∧ after = [] := by
        simpa [List.append_eq_singleton_iff] using worker
      obtain ⟨noCalls, noReturns⟩ : l.calls = [] ∧ l.returns = [] := notCalled
      exact .inCallback all some callback (by simp [same]) ⟨by simp [noCalls, same], noReturns⟩ notReported
    | counting _ nobody => simp at nobody
    | inCallback _ _ _ worker => simp [List.append_eq_singleton_iff] at worker
    | reporting _ _ _ worker => simp [List.append_eq_singleton_iff] at worker
    | reported _ _ _ nobody => simp at nobody
  | returned l success ok before after =>
    refine ⟨counted, conjunction, tasks, ?_⟩
    cases stage with
    | inCallback all some callback worker wasCalled notReported =>
      obtain ⟨rfl, same, rfl⟩ : before = [] ∧ success = l.state.success ∧ after = [] := by
        simpa [List.append_eq_singleton_iff] using worker
      refine .reporting all some (success && ok) (by simp) (.inr ⟨callback, wasCalled.1, ok, ?_, ?_⟩)
        notReported
      · simpa using wasCalled.2
      · rw [same]
    | counting _ nobody => simp at nobody
    | completing _ _ _ worker => simp [List.append_eq_singleton_iff] at worker
    | reporting _ _ _ worker => simp [List.append_eq_singleton_iff] at worker
    | reported _ _ _ nobody => simp at nobody
  | reported l success before after =>
    refine ⟨counted, conjunction, tasks, ?_⟩
    cases stage with
    | reporting all some success' worker result notReported =>
      obtain ⟨rfl, rfl, rfl⟩ : before = [] ∧ success = success' ∧ after = [] := by
        simpa [List.append_eq_singleton_iff] using worker
      exact .reported all some success (by simp) result (by simpa using notReported)
    | counting _ nobody => simp at nobody
    | completing _ _ _ worker => simp [List.append_eq_singleton_iff] at worker
    | inCallback _ _ _ worker => simp [List.append_eq_singleton_iff] at worker
    | reported _ _ _ nobody => simp at nobody

/-- When the last task is counted, no task of the job is left and its outcomes are known. -/
theorem Balanced.finished {l : Ledger κ} (balanced : l.Balanced) (failures : l.failed ≤ l.ended)
    (all : l.state.completed = l.state.nTasks) :
    (l.queued = 0 ∧ l.running = 0 ∧ l.ended = 0) ∧ l.outcomes.length = l.state.nTasks ∧
      l.outcomes.all id = l.state.success := by
  have tasks := balanced.tasks
  have left : l.queued = 0 ∧ l.running = 0 ∧ l.ended = 0 := by omega
  have noFailure : l.failed = 0 := by omega
  exact ⟨left, by rw [balanced.counted]; omega, by rw [balanced.conjunction, noFailure]; simp⟩

/-- The callback was called at most once, with every outcome known and their conjunction. -/
theorem Balanced.called {l : Ledger κ} (balanced : l.Balanced) (failures : l.failed ≤ l.ended) :
    l.calls = [] ∨ l.state.onComplete.isSome = true ∧ l.outcomes.length = l.state.nTasks ∧
      l.calls = [l.outcomes.all id] := by
  cases balanced.stage with
  | counting _ _ notCalled => exact .inl notCalled.1
  | completing _ _ _ _ notCalled => exact .inl notCalled.1
  | inCallback all _ callback _ wasCalled =>
    obtain ⟨_, length, conjunction⟩ := balanced.finished failures all
    exact .inr ⟨callback, length, by rw [conjunction]; exact wasCalled.1⟩
  | reporting all _ _ _ result | reported all _ _ _ result =>
    obtain ⟨_, length, conjunction⟩ := balanced.finished failures all
    rcases result with ⟨_, notCalled, _⟩ | ⟨callback, wasCalled, _⟩
    · exact .inl notCalled
    · exact .inr ⟨callback, length, by rw [conjunction]; exact wasCalled⟩

/-- The job was reported at most once, with its result, and nothing of it is left then. -/
theorem Balanced.reported {l : Ledger κ} (balanced : l.Balanced) (failures : l.failed ≤ l.ended) :
    l.reports = [] ∨ ∃ success, l.reports = [success] ∧ l.Result success ∧
      (l.queued = 0 ∧ l.running = 0 ∧ l.ended = 0 ∧ l.finishing = []) ∧
      l.outcomes.length = l.state.nTasks ∧ l.outcomes.all id = l.state.success := by
  cases balanced.stage with
  | counting _ _ _ notReported => exact .inl notReported
  | completing _ _ _ _ _ notReported => exact .inl notReported
  | inCallback _ _ _ _ _ notReported => exact .inl notReported
  | reporting _ _ _ _ _ notReported => exact .inl notReported
  | reported all _ success nobody result wasReported =>
    obtain ⟨⟨queued, running, ended⟩, length, conjunction⟩ := balanced.finished failures all
    exact .inr ⟨success, wasReported, result, ⟨queued, running, ended, nobody⟩, length, conjunction⟩

/-- A job with tasks that is not reported is still queued or with a worker, as long as no task is lost. -/
theorem Balanced.pending {l : Ledger κ} (balanced : l.Balanced)
    (total : l.queued + l.running + l.ended + l.state.completed = l.state.nTasks) (some : l.state.nTasks ≠ 0)
    (notReported : l.reports = []) :
    0 < l.queued ∨ 0 < l.running ∨ 0 < l.ended ∨ l.finishing ≠ [] := by
  cases balanced.stage with
  | counting pending => omega
  | completing _ _ _ worker => simp [worker]
  | inCallback _ _ _ worker => simp [worker]
  | reporting _ _ _ worker => simp [worker]
  | reported _ _ _ _ _ wasReported => simp [wasReported] at notReported

/-- Every task of the job is queued, in the hands of a worker or counted. -/
def Total (l : Ledger κ) : Prop :=
  l.queued + l.running + l.ended + l.state.completed = l.state.nTasks

/-- No step of a worker creates a task or loses one. -/
theorem Step.total {l m : Ledger κ} (moved : Step l m) :
    m.queued + m.running + m.ended + m.state.completed = l.queued + l.running + l.ended + l.state.completed ∧
      m.state.jobId = l.state.jobId ∧ m.state.nTasks = l.state.nTasks ∧
      m.state.onComplete = l.state.onComplete := by
  cases moved <;> simp [JobState.taskDone] <;> omega

/-- A queue that is empty stays empty. -/
theorem Step.queued_le {l m : Ledger κ} (moved : Step l m) : m.queued ≤ l.queued := by
  cases moved <;> simp

theorem Total.step {l m : Ledger κ} (total : l.Total) (moved : Step l m) : m.Total := by
  obtain ⟨tasks, _, nTasks, _⟩ := moved.total
  rw [Total, tasks, nTasks, total]

theorem Total.opened {l : Ledger κ} (total : l.Total) (blank : l.state = ⟨0, 0, 0, true, none⟩)
    (jobId nTasks : ℕ) (onComplete : Option κ) :
    Total { l with
      state := ⟨jobId, nTasks, 0, true, onComplete⟩
      queued := l.queued + nTasks } := by
  simp only [Total, blank] at total ⊢
  omega

/-- The ledger of a job that has not been opened is empty. -/
theorem Balanced.unopened {l : Ledger κ} (balanced : l.Balanced) (blank : l.state = ⟨0, 0, 0, true, none⟩) :
    l = ⟨⟨0, 0, 0, true, none⟩, 0, 0, 0, 0, [], [], [], [], []⟩ := by
  obtain ⟨counted, conjunction, tasks, stage⟩ := balanced
  have none_left : l.queued = 0 ∧ l.running = 0 ∧ l.ended = 0 := by
    simp only [blank] at tasks
    omega
  have no_outcome : l.outcomes = [] := List.eq_nil_of_length_eq_zero (by simp [counted, blank, none_left])
  have no_failure : l.failed = 0 := by simpa [no_outcome, blank] using conjunction
  cases stage with
  | counting _ nobody notCalled notReported =>
    ext1 <;> simp_all
  | completing _ some => simp [blank] at some
  | inCallback _ some => simp [blank] at some
  | reporting _ some => simp [blank] at some
  | reported _ some => simp [blank] at some

/-- A job is opened with all of its tasks queued. -/
theorem Balanced.opened {l : Ledger κ} (balanced : l.Balanced) (blank : l.state = ⟨0, 0, 0, true, none⟩)
    (jobId nTasks : ℕ) (onComplete : Option κ) :
    Balanced { l with
      state := ⟨jobId, nTasks, 0, true, onComplete⟩
      queued := l.queued + nTasks } := by
  rw [balanced.unopened blank]
  refine ⟨rfl, rfl, by simp, .counting ?_ rfl ⟨rfl, rfl⟩ rfl⟩
  simp only
  omega

/-- Tasks that are cancelled leave the queue and are never counted. -/
theorem Balanced.cancelled {l : Ledger κ} (balanced : l.Balanced) : Balanced { l with queued := 0 } :=
  ⟨balanced.counted, balanced.conjunction, by have := balanced.tasks; simp only; omega,
    balanced.stage.congr rfl rfl rfl rfl rfl⟩

/-- The part of the balance that needs no count of the tasks: the counter of a job passes its number of
tasks once, and from then on the job is either with one worker or reported. -/
def Tallied (l : Ledger κ) : Prop :=
  (l.state.completed < l.state.nTasks ∨ l.state.nTasks = 0) ∧ l.finishing = [] ∧ l.reports = [] ∨
    l.state.nTasks ≤ l.state.completed ∧ l.state.nTasks ≠ 0 ∧ l.finishing.length + l.reports.length = 1

theorem Tallied.length {l : Ledger κ} (tallied : l.Tallied) :
    (l.state.completed < l.state.nTasks ∨ l.state.nTasks = 0) ∧ l.finishing.length + l.reports.length = 0 ∨
      l.state.nTasks ≤ l.state.completed ∧ l.state.nTasks ≠ 0 ∧
        l.finishing.length + l.reports.length = 1 :=
  tallied.imp_left fun ⟨counting, nobody, notReported⟩ => ⟨counting, by rw [nobody, notReported]; rfl⟩

theorem length_finishOf (state : JobState κ) (success : Bool) :
    (finishOf state success).length = if state.completed + 1 = state.nTasks then 1 else 0 := by
  by_cases last : state.completed + 1 = state.nTasks
  · cases callback : state.onComplete <;> simp [finishOf, JobState.taskDone, last, callback]
  · simp [finishOf, JobState.taskDone, last]

theorem Tallied.step {l m : Ledger κ} (tallied : l.Tallied) (moved : Step l m) : m.Tallied := by
  cases moved with
  | take l => exact tallied
  | taskReturned l => exact tallied
  | taskRaised l => exact tallied
  | taskDone l success before after =>
    have finished := length_finishOf l.state success
    rcases tallied with ⟨pending, nobody, notReported⟩ | ⟨passed, some, one⟩
    · obtain ⟨rfl, rfl⟩ := List.append_eq_nil_iff.mp nobody
      simp only at pending notReported
      by_cases last : l.state.completed + 1 = l.state.nTasks
      · rw [if_pos last] at finished
        refine .inr ⟨last.ge, by simp [JobState.taskDone]; omega, ?_⟩
        simp [finished, notReported]
      · rw [if_neg last] at finished
        refine .inl ⟨by simp [JobState.taskDone]; omega, ?_, notReported⟩
        simpa using List.eq_nil_of_length_eq_zero finished
    · simp only at passed some one
      rw [if_neg (by omega)] at finished
      refine .inr ⟨by simp [JobState.taskDone]; omega, some, ?_⟩
      simp only [List.length_append, finished] at one ⊢
      omega
  | called l success before after =>
    rcases tallied with ⟨_, nobody, _⟩ | ⟨passed, some, one⟩
    · simp at nobody
    · exact .inr ⟨passed, some, by simpa using one⟩
  | returned l success ok before after =>
    rcases tallied with ⟨_, nobody, _⟩ | ⟨passed, some, one⟩
    · simp at nobody
    · exact .inr ⟨passed, some, by simpa using one⟩
  | reported l success before after =>
    rcases tallied with ⟨_, nobody, _⟩ | ⟨passed, some, one⟩
    · simp at nobody
    · refine .inr ⟨passed, some, ?_⟩
      simp only [List.length_append, List.length_cons, List.length_nil] at one ⊢
      omega

theorem Tallied.opened {l : Ledger κ} (tallied : l.Tallied) (blank : l.state = ⟨0, 0, 0, true, none⟩)
    (jobId nTasks tasks : ℕ) (onComplete : Option κ) :
    Tallied { l with
      state := ⟨jobId, nTasks, 0, true, onComplete⟩
      queued := l.queued + tasks } := by
  rcases tallied with ⟨_, nobody, notReported⟩ | ⟨_, some, _⟩
  · exact .inl ⟨by simp only; omega, nobody, notReported⟩
  · simp [blank] at some

end Ledger

end KVTiering.Soundness
