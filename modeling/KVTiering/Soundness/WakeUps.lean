import KVTiering.Model.ConditionPool
import KVTiering.Soundness.PoolDrain

/-! # No wake-up is lost

Tasks are queued by a thread that is awake, which wakes a worker for each of them as far as there are any, so
while something is queued there is always a worker that is not asleep: nobody goes to sleep on a task, and who
takes one is awake itself. Only the end of a job makes the pool idle, and it wakes everybody.
-/

namespace KVTiering.Soundness.ThreadPool

open Model

variable {τ κ : Type}

theorem length_workers {p next : Pool τ κ} {event : PoolEvent τ κ} (stepped : p.step event = some next) :
    next.workers.length = p.workers.length := by
  cases event with
  | enqueueLoad | enqueueStore => rw [(enqueue_spec stepped rfl).2.2.1]
  | getFinished => rw [(Pool.getFinished_cases stepped).2]
  | shutdown =>
    cases stepped
    rfl
  | worker index action =>
    obtain ⟨before, after, _, _, _, _, workers, rfl, _, rfl⟩ := Pool.workerStep_cases stepped
    simp [workers]

/-! ## Notifying -/

theorem eq_of_notifies_all {waiters woken : Finset PoolThread} (notifies : Notifies waiters waiters.card woken) :
    woken = waiters := by
  obtain ⟨inside, enough, -⟩ := notifies
  rw [min_self] at enough
  exact Finset.eq_of_subset_of_card_le inside enough

/-- A `notify` of at least one thread wakes one, if any is asleep. -/
theorem exists_woken {waiters woken : Finset PoolThread} {n : ℕ} (notifies : Notifies waiters n woken)
    (some : 0 < n) (asleep : waiters.Nonempty) : ∃ thread ∈ waiters, thread ∉ waiters \ woken := by
  obtain ⟨inside, enough, -⟩ := notifies
  have woke : 0 < woken.card := lt_of_lt_of_le (lt_min some (Finset.card_pos.mpr asleep)) enough
  obtain ⟨thread, member⟩ := Finset.card_pos.mp woke
  exact ⟨thread, inside member, fun left => (Finset.mem_sdiff.mp left).2 member⟩

/-! ## The invariant -/

/-- Something is queued. -/
def Queued (p : Pool τ κ) : Prop := p.loadQ ≠ [] ∨ p.storeQ ≠ []

/-- An `enqueue` of no task queues none. -/
theorem queued_of_enqueue {p next : Pool τ κ} {event : PoolEvent τ κ} {submission : Submission τ κ}
    (stepped : p.step event = some next) (submits : submission? event = some submission) (counted : Counted event)
    (queued : Queued next) : Queued p ∨ 0 < submission.nTasks := by
  rw [counted submission submits, List.length_pos_iff]
  by_cases none : submission.tasks = []
  · left
    cases event with
    | enqueueLoad jobId nTasks tasks =>
      cases submits
      cases stepped
      obtain rfl : tasks = [] := none
      simpa [Queued, Pool.enqueueLoad, Pool.openJob] using queued
    | enqueueStore jobId nTasks tasks onComplete =>
      cases submits
      cases stepped
      obtain rfl : tasks = [] := none
      simpa [Queued, Pool.enqueueStore, Pool.openJob] using queued
    | _ => cases submits
  · exact .inr none

/-- While a task is queued some worker is awake, and the owner does not sleep on an idle pool. -/
structure Awake (s : ConditionPool τ κ) : Prop where
  staffed : 0 < s.pool.workers.length
  inside : ∀ index, .worker index ∈ s.waiters → index < s.pool.workers.length
  served : Queued s.pool → ∃ index < s.pool.workers.length, .worker index ∉ s.waiters
  busy : .caller ∈ s.waiters → s.caller = .parked ∧ s.pool.inflightJobs ≠ 0

theorem awake_init {nReadThreads nWriteThreads : ℕ} (staffed : 0 < nReadThreads + nWriteThreads) :
    Awake (ConditionPool.init nReadThreads nWriteThreads : ConditionPool τ κ) where
  staffed := by simpa [ConditionPool.init, Pool.init] using staffed
  inside _ member := by simp [ConditionPool.init] at member
  served queued := by simp [Queued, ConditionPool.init, Pool.init] at queued
  busy member := by simp [ConditionPool.init] at member

/-- The owner is not asleep where it is not in `wait()`. -/
theorem Awake.caller_notMem {s : ConditionPool τ κ} (awake : Awake s) (elsewhere : s.caller ≠ .parked) :
    .caller ∉ s.waiters := fun member => elsewhere (awake.busy member).1

/-- A step of the owner that leaves no more in the queues than it wakes workers for. -/
theorem Awake.called {s : ConditionPool τ κ} (awake : Awake s) (outside : s.caller = .outside)
    {p : Pool τ κ} (length : p.workers.length = s.pool.workers.length) {n : ℕ} {woken : Finset PoolThread}
    (notifies : Notifies s.waiters n woken) (announced : Queued p → Queued s.pool ∨ 0 < n) :
    Awake { s with pool := p, waiters := s.waiters \ woken } := by
  have notAsleep := awake.caller_notMem (by simp [outside])
  obtain ⟨staffed, inside, served, -⟩ := awake
  refine ⟨length ▸ staffed, fun index member => ?_, fun queued => ?_, fun member => ?_⟩
  · exact length ▸ inside index (Finset.mem_sdiff.mp member).1
  · dsimp only at queued ⊢
    rw [length]
    by_cases all : ∀ index < s.pool.workers.length, .worker index ∈ s.waiters
    · -- everybody sleeps, so nothing was queued before, and one of them is woken
      have some : 0 < n := by
        refine (announced queued).resolve_left fun before => ?_
        obtain ⟨index, bound, up⟩ := served before
        exact up (all index bound)
      obtain ⟨thread, asleep, up⟩ := exists_woken notifies some ⟨_, all 0 staffed⟩
      cases thread with
      | worker index => exact ⟨index, inside index asleep, up⟩
      | caller => exact absurd asleep notAsleep
    · push Not at all
      obtain ⟨index, bound, up⟩ := all
      exact ⟨index, bound, fun member => up (Finset.mem_sdiff.mp member).1⟩
  · exact absurd (Finset.mem_sdiff.mp member).1 notAsleep

/-- A step of a worker: it is awake itself. -/
theorem Awake.worked {s : ConditionPool τ κ} (awake : Awake s) {index : ℕ} (up : .worker index ∉ s.waiters)
    {action : WorkerAction τ} {p : Pool τ κ} (moved : s.pool.step (.worker index action) = some p)
    {woken : Finset PoolThread} (notifies : Notifies s.waiters (s.notified (.worker index action)) woken) :
    Awake { s with pool := p, waiters := s.waiters \ woken } := by
  obtain ⟨staffed, inside, -, busy⟩ := awake
  have length := length_workers moved
  refine ⟨length ▸ staffed, fun other member => ?_, fun _ => ⟨index, ?_, fun member => ?_⟩, fun member => ?_⟩
  · exact length ▸ inside other (Finset.mem_sdiff.mp member).1
  · obtain ⟨before, after, _, _, _, _, _, rfl, _, rfl⟩ := Pool.workerStep_cases moved
    simp
  · exact up (Finset.mem_sdiff.mp member).1
  · have asleep := Finset.mem_sdiff.mp member
    refine ⟨(busy asleep.1).1, ?_⟩
    rcases (workerStep_counters moved).2.2 with ⟨job, success, rfl, -⟩ | ⟨-, same, -⟩
    · have all : woken = s.waiters := eq_of_notifies_all notifies
      exact absurd asleep.1 (all ▸ asleep.2)
    · change p.inflightJobs ≠ 0
      rw [same]
      exact (busy asleep.1).2

/-- A worker goes to sleep when nothing is queued. -/
theorem Awake.slept {s : ConditionPool τ κ} (awake : Awake s) {index : ℕ} (inside : index < s.pool.workers.length)
    (loadQ : s.pool.loadQ = []) (storeQ : s.pool.storeQ = []) :
    Awake { s with waiters := insert (.worker index) s.waiters } := by
  refine ⟨awake.staffed, fun other member => ?_, fun queued => ?_, fun member => ?_⟩
  · rcases Finset.mem_insert.mp member with same | before
    · cases same
      exact inside
    · exact awake.inside other before
  · exact absurd queued (by simp [Queued, loadQ, storeQ])
  · exact awake.busy (Finset.mem_of_mem_insert_of_ne member (by simp))

/-- The owner goes to sleep, on a pool that is not idle. -/
theorem Awake.sleptCaller {s : ConditionPool τ κ} (awake : Awake s) (busy : s.pool.inflightJobs ≠ 0) :
    Awake { s with caller := .parked, waiters := insert .caller s.waiters } := by
  refine ⟨awake.staffed, fun index member => ?_, fun queued => ?_, fun _ => ⟨rfl, busy⟩⟩
  · exact awake.inside index (Finset.mem_of_mem_insert_of_ne member (by simp))
  · obtain ⟨index, bound, up⟩ := awake.served queued
    exact ⟨index, bound, fun member => up (Finset.mem_of_mem_insert_of_ne member (by simp))⟩

theorem Awake.moved {s : ConditionPool τ κ} (awake : Awake s) (caller : CallerState) (up : .caller ∉ s.waiters) :
    Awake { s with caller := caller } :=
  ⟨awake.staffed, awake.inside, awake.served, fun member => absurd member up⟩

/-! ## Runs -/

/-- The step of the pool that an event takes, if it takes one. -/
def poolEvent? : ConditionEvent τ κ → Option (PoolEvent τ κ)
  | .pool event _ => some event
  | _ => none

theorem Awake.step {s next : ConditionPool τ κ} (awake : Awake s) {event : ConditionEvent τ κ}
    (counted : ∀ moves, poolEvent? event = some moves → Counted moves) (stepped : s.step event = some next) :
    Awake next := by
  cases ConditionPool.moves_of_step stepped with
  | @pool event woken p free notifies moved =>
    have length := length_workers moved
    cases event with
    | worker index action => exact awake.worked (of_decide_eq_true free) moved notifies
    | enqueueLoad jobId nTasks tasks =>
      refine awake.called (of_decide_eq_true free) length notifies fun queued => ?_
      exact queued_of_enqueue moved rfl (counted _ rfl) queued
    | enqueueStore jobId nTasks tasks onComplete =>
      refine awake.called (of_decide_eq_true free) length notifies fun queued => ?_
      exact queued_of_enqueue moved rfl (counted _ rfl) queued
    | getFinished job success =>
      refine awake.called (of_decide_eq_true free) length notifies fun queued => .inl ?_
      rwa [(Pool.getFinished_cases moved).2] at queued
    | shutdown =>
      refine awake.called (of_decide_eq_true free) length notifies fun queued => ?_
      cases moved
      simp [Queued, Pool.shutdown] at queued
  | waitIdle outside => exact awake.moved .entering (awake.caller_notMem (by simp [outside]))
  | returned up idle =>
    apply awake.moved
    rcases up with entering | ⟨-, notified⟩
    · exact awake.caller_notMem (by simp [entering])
    · exact notified
  | parkCaller up busy => exact awake.sleptCaller busy
  | park _ found _ loadQ storeQ => exact awake.slept (List.getElem?_eq_some_iff.mp found).1 loadQ storeQ

theorem awake_of_run {nReadThreads nWriteThreads : ℕ} (staffed : 0 < nReadThreads + nWriteThreads)
    {events : List (ConditionEvent τ κ)} {s : ConditionPool τ κ}
    (run : Run (Steps ConditionPool.step) (.init nReadThreads nWriteThreads) events s)
    (counted : ∀ event ∈ events.filterMap poolEvent?, Counted event) : Awake s := by
  apply run.preserves Awake (awake_init staffed)
  intro source event target member awake moved
  refine awake.step (fun moves same => counted moves ?_) moved
  exact List.mem_filterMap.mpr ⟨event, member, same⟩

theorem pool_of_step {s next : ConditionPool τ κ} {event : ConditionEvent τ κ} (stepped : s.step event = some next) :
    (∃ moves, poolEvent? event = some moves ∧ s.pool.step moves = some next.pool) ∨
      poolEvent? event = none ∧ next.pool = s.pool := by
  cases ConditionPool.moves_of_step stepped with
  | pool _ _ moved => exact .inl ⟨_, rfl, moved⟩
  | _ => exact .inr ⟨rfl, rfl⟩

/-- Sleeping and waking apart, the pool takes the steps of a pool whose workers take tasks when they please. -/
theorem pool_run {nReadThreads nWriteThreads : ℕ} {events : List (ConditionEvent τ κ)} {s : ConditionPool τ κ}
    (run : Run (Steps ConditionPool.step) (.init nReadThreads nWriteThreads) events s) :
    Run (Steps Pool.step) (.init nReadThreads nWriteThreads) (events.filterMap poolEvent?) s.pool := by
  induction run with
  | nil => exact .nil
  | snoc before moved ih =>
    rw [List.filterMap_append]
    rcases pool_of_step moved with ⟨moves, same, stepped⟩ | ⟨same, kept⟩
    · rw [List.filterMap_cons_some same]
      exact .snoc ih stepped
    · rw [List.filterMap_cons_none same, List.filterMap_nil, List.append_nil, kept]
      exact ih

/-- In every state reached without a shutdown, some worker is awake while anything is queued; and the owner of
the pool does not sleep in `wait_idle` once the pool is idle. -/
theorem no_task_stranded {nReadThreads nWriteThreads : ℕ} (staffed : 0 < nReadThreads + nWriteThreads)
    {events : List (ConditionEvent τ κ)} {s : ConditionPool τ κ}
    (run : Run (Steps ConditionPool.step) (.init nReadThreads nWriteThreads) events s)
    (counted : ∀ event ∈ events.filterMap poolEvent?, Counted event) (going : s.pool.stop = false) :
    (s.pool.loadQ ≠ [] ∨ s.pool.storeQ ≠ [] → ∃ index worker, s.pool.workers[index]? = some worker ∧
        worker.state ≠ .exited ∧ .worker index ∉ s.waiters) ∧
      (s.caller = .parked → s.pool.inflightJobs = 0 → .caller ∉ s.waiters) := by
  have awake := awake_of_run staffed run counted
  refine ⟨fun queued => ?_, fun _ idle asleep => ?_⟩
  · obtain ⟨index, bound, up⟩ := awake.served queued
    have staying := not_exited_of_run (pool_run run) going
    exact ⟨index, _, List.getElem?_eq_getElem bound, staying _ (List.getElem_mem bound), up⟩
  · exact (awake.busy asleep).2 idle

/-- Both workers sleep when the only task comes; the second one is woken for it. -/
def sleepingTape : List (ConditionEvent Unit Unit) :=
  [.park 0, .park 1, .pool (.enqueueLoad 7 1 [()]) {.worker 1}]

/-- The owner sleeps until the job has been reported. -/
def wakingTape : List (ConditionEvent Unit Unit) :=
  sleepingTape ++ [.waitIdle, .checkIdle, .pool (.worker 1 .take) ∅, .pool (.worker 1 (.taskEnded 0 true)) ∅,
    .pool (.worker 1 (.taskDone 0 true)) ∅, .pool (.worker 1 (.reported 0 true)) {.worker 0, .caller}]

theorem no_task_stranded_sleeping : ∃ s t : ConditionPool Unit Unit,
    Run (Steps ConditionPool.step) (.init 1 1) sleepingTape s ∧ s.waiters = {.worker 0} ∧
      (∃ index worker, s.pool.workers[index]? = some worker ∧ worker.state ≠ .exited ∧ .worker index ∉ s.waiters) ∧
      Run (Steps ConditionPool.step) (.init 1 1) wakingTape t ∧ t.caller = .parked ∧ .caller ∉ t.waiters := by
  have first : (replay ConditionPool.step (.init 1 1) sleepingTape).map (fun s =>
      (s.waiters, s.pool.loadQ, s.pool.stop)) = some ({.worker 0}, [((), 0)], false) := by decide
  have second : (replay ConditionPool.step (.init 1 1) wakingTape).map (fun s =>
      (s.caller, s.pool.inflightJobs, s.pool.stop)) = some (.parked, 0, false) := by decide
  obtain ⟨s, replayed, facts⟩ := Option.map_eq_some_iff.mp first
  obtain ⟨t, replayed', facts'⟩ := Option.map_eq_some_iff.mp second
  simp only [Prod.mk.injEq] at facts facts'
  obtain ⟨asleep, queue, going⟩ := facts
  obtain ⟨parked, idle, going'⟩ := facts'
  have counted : ∀ event ∈ wakingTape.filterMap poolEvent?, Counted event := by
    intro event member submission submits
    simp only [wakingTape, sleepingTape, poolEvent?, List.cons_append, List.nil_append, List.filterMap_cons,
      List.filterMap_nil, List.mem_cons, List.not_mem_nil, or_false] at member
    rcases member with rfl | rfl | rfl | rfl | rfl <;> cases submits
    rfl
  have counted' : ∀ event ∈ sleepingTape.filterMap poolEvent?, Counted event := by
    intro event member
    apply counted
    rw [wakingTape, List.filterMap_append]
    exact List.mem_append_left _ member
  have run := Run.of_replay replayed
  have run' := Run.of_replay replayed'
  obtain ⟨served, -⟩ := no_task_stranded (by decide) run counted' going
  obtain ⟨-, notified⟩ := no_task_stranded (by decide) run' counted going'
  exact ⟨s, t, run, asleep, served (.inl (by simp [queue])), run', parked, notified parked idle⟩

end KVTiering.Soundness.ThreadPool
