import KVTiering.Machine.Simulation
import KVTiering.Model.Cluster
import KVTiering.Soundness.WakeUps
import KVTiering.Soundness.PoolShutdown

/-! # Waiting for the pool comes to an end

`wait_idle` and the joins of `shutdown` block until the workers have done something. As long as the tasks end,
the steps that the threads can take meanwhile are bounded: the work that is left shrinks, a thread goes to sleep
only if it was awake, and only a report wakes all of them. The steps do not run out before the owner can go on.
-/

namespace KVTiering.Soundness.ThreadPool

open Model

variable {τ κ : Type} {nReadThreads nWriteThreads : ℕ}

/-! ## Work that is left -/

/-- What a worker has left of its task, where `effort` says how long a task can work. -/
def effortLeft (effort : τ → ℕ) : WorkerState τ → ℕ
  | .running task _ => effort task
  | _ => 0

/-- A bound on the worker steps that the pool has in front of it. -/
def toDo (effort : τ → ℕ) (p : Pool τ κ) : ℕ :=
  outstanding p + (((p.loadQ ++ p.storeQ).map fun item => effort item.1).sum +
    (p.workers.map fun worker => effortLeft effort worker.state).sum)

/-- A task that works gets closer to its end. -/
def GetsOn (effort : τ → ℕ) (p : Pool τ κ) : PoolEvent τ κ → Prop
  | .worker index (.work rest) => ∀ loadPriority task job,
      p.workers[index]? = some ⟨loadPriority, .running task job⟩ → effort rest < effort task
  | _ => True

/-- Every step of a worker leaves less to do. -/
theorem toDo_step {effort : τ → ℕ} {p next : Pool τ κ} {index : ℕ} {action : WorkerAction τ}
    (stepped : p.workerStep index action = some next) (getsOn : GetsOn effort p (.worker index action)) :
    toDo effort next < toDo effort p := by
  obtain ⟨before, after, loadPriority, source, target, middle, workers, rfl, moves, rfl⟩ :=
    Pool.workerStep_cases stepped
  have closer : 7 * (middle.loadQ.length + middle.storeQ.length) + remaining target +
        (((middle.loadQ ++ middle.storeQ).map fun item => effort item.1).sum + effortLeft effort target) <
      7 * (p.loadQ.length + p.storeQ.length) + remaining source +
        (((p.loadQ ++ p.storeQ).map fun item => effort item.1).sum + effortLeft effort source) := by
    cases moves with
    | take _ popped =>
      rcases Pool.pop_cases popped with ⟨queue, same⟩ | ⟨queue, same⟩ <;> rw [same, queue] <;>
        simp [remaining, effortLeft] <;> omega
    | @work task rest job =>
      have lower := getsOn loadPriority task job (by simp [workers])
      simp only [remaining, effortLeft]
      omega
    | taskDone => split <;> [split <;> simp [remaining, effortLeft]; simp [remaining, effortLeft]]
    | _ => simp [remaining, effortLeft] <;> omega
  simp only [toDo, outstanding, workers, List.map_append, List.map_cons, List.sum_append, List.sum_cons] at closer ⊢
  omega

/-- The tasks of the tier end: each step of one makes a call, and it has a list of them. -/
theorem getsOn_of_step {ι : Type} [DecidableEq ι] {c d : Cluster ι} {process : ι} {index : ℕ}
    {action : WorkerAction Task} {outcome : StepOutcome}
    (stepped : c.step (.worker process index action outcome) = some d) :
    GetsOn (fun task : Task => task.calls.length) (c.pool process) (.worker index action) := by
  cases action with
  | work left =>
    intro loadPriority task job found
    simp only [Cluster.step, Cluster.workerStep, found, Option.bind_some] at stepped
    obtain ⟨middle, effect, -⟩ := Option.bind_eq_some_iff.mp stepped
    simp only [Cluster.effect] at effect
    split at effect
    · next call calls made =>
      split at effect
      · next same =>
        subst same
        have shorter : (c.rest calls call).length ≤ calls.length := by
          unfold Cluster.rest
          split
          · split <;> simp
          · exact le_rfl
        simp only [made, List.length_cons]
        exact Nat.lt_succ_of_le shorter
      · cases effect
    · cases effect
  | _ => trivial

/-! ## Who sleeps -/

/-- A worker that sleeps is at the top of its loop. -/
def Idling (s : ConditionPool τ κ) : Prop :=
  ∀ index, .worker index ∈ s.waiters → ∃ loadPriority, s.pool.workers[index]? = some ⟨loadPriority, .waiting⟩

/-- A step that is not the worker's own leaves it where it stands. -/
theorem worker_kept {p next : Pool τ κ} {event : PoolEvent τ κ} (stepped : p.step event = some next) {index : ℕ}
    (other : event.thread ≠ .worker index) : next.workers[index]? = p.workers[index]? := by
  cases event with
  | enqueueLoad | enqueueStore => rw [(enqueue_spec stepped rfl).2.2.1]
  | getFinished => rw [(Pool.getFinished_cases stepped).2]
  | shutdown =>
    cases stepped
    rfl
  | worker acting action =>
    obtain ⟨before, after, loadPriority, source, target, middle, workers, rfl, _, rfl⟩ := Pool.workerStep_cases stepped
    have elsewhere : before.length ≠ index := fun same => other (by rw [PoolEvent.thread, same])
    rw [workers, List.getElem?_append, List.getElem?_append]
    split
    · rfl
    · rw [List.getElem?_cons, List.getElem?_cons, if_neg (by omega), if_neg (by omega)]

theorem Idling.step {s next : ConditionPool τ κ} {event : ConditionEvent τ κ} (idling : Idling s)
    (stepped : s.step event = some next) : Idling next := by
  intro index asleep
  cases ConditionPool.moves_of_step stepped with
  | @pool event woken pool free notifies moved =>
    have before := (Finset.mem_sdiff.mp asleep).1
    obtain ⟨loadPriority, found⟩ := idling index before
    refine ⟨loadPriority, (worker_kept moved fun same => ?_).trans found⟩
    -- the worker that steps does not sleep
    rw [same] at free
    exact of_decide_eq_true free before
  | waitIdle => exact idling index asleep
  | returned => exact idling index asleep
  | parkCaller => exact idling index (Finset.mem_of_mem_insert_of_ne asleep (by simp))
  | @park parking loadPriority _ found =>
    rcases Finset.mem_insert.mp asleep with same | before
    · cases same
      exact ⟨loadPriority, found⟩
    · exact idling index before

theorem idling_of_run {events : List (ConditionEvent τ κ)} {s : ConditionPool τ κ}
    (run : Run (Steps ConditionPool.step) (.init nReadThreads nWriteThreads) events s) : Idling s := by
  apply run.preserves Idling
  · intro index member
    simp [ConditionPool.init] at member
  · exact fun source event target _ idling moved => idling.step moved

/-- The threads that are not asleep. -/
def upright (s : ConditionPool τ κ) : ℕ := s.pool.workers.length + 1 - s.waiters.card

theorem card_waiters_le {s : ConditionPool τ κ} (idling : Idling s) : s.waiters.card ≤ s.pool.workers.length + 1 := by
  have threads : s.waiters ⊆ insert .caller ((Finset.range s.pool.workers.length).image .worker) := by
    intro thread asleep
    cases thread with
    | caller => exact Finset.mem_insert_self _ _
    | worker index =>
      obtain ⟨_, found⟩ := idling index asleep
      apply Finset.mem_insert_of_mem
      exact Finset.mem_image_of_mem _ (Finset.mem_range.mpr (List.getElem?_eq_some_iff.mp found).1)
  calc s.waiters.card ≤ _ := Finset.card_le_card threads
    _ ≤ ((Finset.range s.pool.workers.length).image PoolThread.worker).card + 1 := Finset.card_insert_le _ _
    _ ≤ s.pool.workers.length + 1 := by
      have images := Finset.card_image_le (s := Finset.range s.pool.workers.length) (f := PoolThread.worker)
      rw [Finset.card_range] at images
      omega

/-- Any number of threads can be notified. -/
theorem exists_notifies (waiters : Finset PoolThread) (n : ℕ) : ∃ woken, Notifies waiters n woken := by
  obtain ⟨woken, inside, card⟩ := Finset.exists_subset_card_eq (min_le_right n waiters.card)
  exact ⟨woken, inside, card.ge, card.le.trans (min_le_left n waiters.card)⟩

/-- A step that a worker has in the pool is one that it has under the condition, if it is awake. -/
theorem exists_conditionStep {s : ConditionPool τ κ} {index : ℕ} (up : .worker index ∉ s.waiters)
    {worker : Worker τ} (found : s.pool.workers[index]? = some worker) {action : WorkerAction τ}
    {moved : Pool τ κ × WorkerState τ}
    (enabled : s.pool.move worker.loadPriority worker.state action = some moved) :
    ∃ woken next, s.step (.pool (.worker index action) woken) = some next := by
  obtain ⟨woken, notifies⟩ := exists_notifies s.waiters (s.notified (.worker index action))
  have free : s.free (PoolEvent.worker (κ := κ) index action).thread = true := decide_eq_true up
  refine ⟨woken, Option.isSome_iff_exists.mp ?_⟩
  rw [ConditionPool.step, if_pos ⟨free, notifies⟩]
  simp only [Pool.step, Pool.workerStep, found, Option.bind_some, enabled, Option.map_some, Option.isSome_some]

/-- The steps that the workers have left, those of going to sleep included: waking all of them costs less than one
step in the pool. -/
def workersLeft (effort : τ → ℕ) (s : ConditionPool τ κ) : ℕ :=
  (s.pool.workers.length + 2) * toDo effort s.pool + upright s

theorem workersLeft_lowered {effort : τ → ℕ} {s next : ConditionPool τ κ} {event : ConditionEvent τ κ}
    (idling : Idling s) (stepped : s.step event = some next) (working : event.ofWorker = true)
    (getsOn : ∀ moves, poolEvent? event = some moves → GetsOn effort s.pool moves) :
    workersLeft effort next < workersLeft effort s := by
  have bounded := card_waiters_le idling
  have bounded' := card_waiters_le (idling.step stepped)
  cases ConditionPool.moves_of_step stepped with
  | @pool moves woken pool free notifies moved =>
    cases moves with
    | worker index action =>
      have less := toDo_step moved (getsOn _ rfl)
      have length := length_workers moved
      have cheaper : (s.pool.workers.length + 2) * toDo effort pool + (s.pool.workers.length + 2) ≤
          (s.pool.workers.length + 2) * toDo effort s.pool := by
        rw [← Nat.mul_succ]
        exact Nat.mul_le_mul_left _ less
      simp only [workersLeft, upright, length] at *
      omega
    | _ => cases working
  | waitIdle | returned | parkCaller => cases working
  | park up =>
    simp only [workersLeft, upright, Finset.card_insert_of_notMem (of_decide_eq_true up)] at *
    omega

/-! ## `wait_idle` -/

section WaitIdle

/-- What the threads do while the owner is in `wait_idle`, with tasks that end. -/
def Waits (effort : τ → ℕ) (s : ConditionPool τ κ) (event : ConditionEvent τ κ) (next : ConditionPool τ κ) : Prop :=
  s.caller ≠ .outside ∧ s.step event = some next ∧
    ∀ moves, poolEvent? event = some moves → GetsOn effort s.pool moves

/-- Waking all the threads costs less than a step of a worker. -/
def rank (effort : τ → ℕ) (s : ConditionPool τ κ) : ℕ :=
  (s.pool.workers.length + 2) * toDo effort s.pool + upright s + if s.caller = .outside then 0 else 1

variable {effort : τ → ℕ} {s next : ConditionPool τ κ} {event : ConditionEvent τ κ}

/-- The owner of the pool takes no other step from inside `wait_idle`. -/
theorem worker_of_inside (inside : s.caller ≠ .outside) {moves : PoolEvent τ κ} (free : s.free moves.thread = true) :
    ∃ index action, moves = .worker index action := by
  cases moves with
  | worker index action => exact ⟨index, action, rfl⟩
  | _ => exact absurd (of_decide_eq_true free) inside

/-- The events of a wait queue nothing. -/
theorem submitted_of_waits (waits : Waits effort s event next) {moves : PoolEvent τ κ}
    (same : poolEvent? event = some moves) : Submitted moves ∧ moves ≠ .shutdown := by
  obtain ⟨inside, stepped, -⟩ := waits
  cases ConditionPool.moves_of_step stepped with
  | pool free =>
    obtain ⟨index, action, rfl⟩ := worker_of_inside inside free
    cases same
    refine ⟨fun submission submits => ?_, by simp⟩
    cases submits
  | _ => cases same

/-- What the threads rely on. -/
def Tended (s : ConditionPool τ κ) : Prop := Awake s ∧ Idling s

theorem Tended.waits (tended : Tended s) (waits : Waits effort s event next) : Tended next := by
  refine ⟨tended.1.step (fun moves same => ?_) waits.2.1, tended.2.step waits.2.1⟩
  exact fun submission submits => ((submitted_of_waits waits same).1 submission submits).1

end WaitIdle

/-! ## `shutdown` -/

section Shutdown

/-- What the workers do while the owner joins them, with tasks that end. -/
def Joins (effort : τ → ℕ) (s : ConditionPool τ κ) (event : ConditionEvent τ κ) (next : ConditionPool τ κ) : Prop :=
  (∀ moves, poolEvent? event = some moves → ∃ index action, moves = .worker index action) ∧
    event ≠ .waitIdle ∧ event ≠ .checkIdle ∧ s.step event = some next ∧
    ∀ moves, poolEvent? event = some moves → GetsOn effort s.pool moves

/-- Nobody sleeps, and nobody goes to sleep any more. -/
def Roused (s : ConditionPool τ κ) : Prop := s.pool.stop = true ∧ s.waiters = ∅

variable {effort : τ → ℕ} {s next : ConditionPool τ κ} {event : ConditionEvent τ κ}

theorem roused_of_shutdown {woken : Finset PoolThread} (stepped : s.step (.pool .shutdown woken) = some next) :
    Roused next ∧ next.pool = s.pool.shutdown := by
  cases ConditionPool.moves_of_step stepped with
  | pool _ notifies moved =>
    cases moved
    have all : woken = s.waiters := eq_of_notifies_all notifies
    exact ⟨⟨rfl, by rw [all, Finset.sdiff_self]⟩, rfl⟩

/-- The only steps left are those of the workers in the pool. -/
theorem worker_of_joins (roused : Roused s) (joins : Joins effort s event next) : ∃ index action woken,
    event = .pool (.worker index action) woken ∧ s.pool.workerStep index action = some next.pool ∧
      GetsOn effort s.pool (.worker index action) ∧ Roused next := by
  obtain ⟨stopped, nobody⟩ := roused
  obtain ⟨workers, notWaitIdle, notCheckIdle, stepped, getsOn⟩ := joins
  cases ConditionPool.moves_of_step stepped with
  | @pool moves woken pool _ _ moved =>
    obtain ⟨index, action, rfl⟩ := workers moves rfl
    refine ⟨index, action, woken, rfl, moved, getsOn _ rfl, ?_, ?_⟩
    · exact (workerStep_counters moved).2.1.trans stopped
    · rw [nobody, Finset.empty_sdiff]
  | waitIdle => exact absurd rfl notWaitIdle
  | returned | parkCaller => exact absurd rfl notCheckIdle
  | park _ _ going => simp [stopped] at going

theorem events_of_joins (roused : Roused s) {more : List (ConditionEvent τ κ)} {t : ConditionPool τ κ}
    (joining : Run (Joins effort) s more t) :
    Roused t ∧ Run (Steps Pool.step) s.pool (more.filterMap poolEvent?) t.pool ∧
      ∀ moves ∈ more.filterMap poolEvent?, ∃ index action, moves = .worker index action := by
  induction joining with
  | nil => exact ⟨roused, .nil, by simp⟩
  | snoc before joins ih =>
    obtain ⟨known, poolRun, workers⟩ := ih
    obtain ⟨index, action, woken, rfl, moved, -, kept⟩ := worker_of_joins known joins
    rw [List.filterMap_append]
    refine ⟨kept, poolRun.snoc moved, fun moves member => ?_⟩
    rcases List.mem_append.mp member with earlier | last
    · exact workers moves earlier
    · exact ⟨index, action, List.mem_singleton.mp last⟩

/-- Until all workers have left, one of them has a step to take. -/
theorem exists_joins {past : List (PoolEvent τ κ)}
    (run : Run (Steps Pool.step) (Pool.init nReadThreads nWriteThreads) past s.pool)
    (counted : ∀ event ∈ past, Counted event) (roused : Roused s)
    (staying : ∃ worker ∈ s.pool.workers, worker.state ≠ .exited) : ∃ event next, Joins effort s event next := by
  obtain ⟨stopped, nobody⟩ := roused
  obtain ⟨worker, member, notExited⟩ := staying
  have able : ∃ action moved, s.pool.move worker.loadPriority worker.state action = some moved ∧
      ∀ rest, action ≠ .work rest := by
    by_cases waiting : worker.state = .waiting
    · exact ⟨.exit, (s.pool, .exited), by rw [waiting, Pool.move, if_pos stopped], by simp⟩
    · refine exists_move waiting notExited fun job held => ?_
      exact opened_of_active run counted fun free => by simp [free.2 worker member] at held
  obtain ⟨action, moved, enabled, progress⟩ := able
  obtain ⟨index, found⟩ := List.getElem?_of_mem member
  obtain ⟨woken, next, stepped⟩ := exists_conditionStep (by simp [nobody]) found enabled
  refine ⟨.pool (.worker index action) woken, next, fun moves same => ?_, by simp, by simp, stepped,
    fun moves same => ?_⟩
  · cases same
    exact ⟨index, action, rfl⟩
  · cases same
    cases action with
    | work rest => exact absurd rfl (progress rest)
    | _ => trivial

/-- `shutdown` returns. Whatever the workers do once it has given the lock back, as long as each task ends, they can
take no more than `toDo` steps; and where they have none left, all of them have left. Meanwhile exactly those jobs
are reported whose last tasks were in the hands of the workers. -/
theorem shutdown_returns {events : List (ConditionEvent τ κ)}
    (run : Run (Steps ConditionPool.step) (.init nReadThreads nWriteThreads) events s)
    (counted : ∀ event ∈ events.filterMap poolEvent?, Counted event) {woken : Finset PoolThread}
    (stepped : s.step (.pool .shutdown woken) = some next) (effort : τ → ℕ) :
    (∀ more t, Run (Joins effort) next more t → more.length ≤ toDo effort next.pool ∧
      ((∀ event later, ¬ Joins effort t event later) → (∀ worker ∈ t.pool.workers, worker.state = .exited) ∧
        ∀ job, reports (more.filterMap poolEvent?) job ≠ [] ↔ LastTaken s.pool job)) ∧
      ∃ more t, Run (Joins effort) next more t ∧ ∀ event later, ¬ Joins effort t event later := by
  obtain ⟨roused, shut⟩ := roused_of_shutdown stepped
  have kept : ∀ (source : ConditionPool τ κ) event target, Roused source → Joins effort source event target →
      Roused target := by
    intro source event target roused joins
    obtain ⟨_, _, _, _, _, _, kept⟩ := worker_of_joins roused joins
    exact kept
  have lowers : ∀ (source : ConditionPool τ κ) event target, Roused source → Joins effort source event target →
      toDo effort target.pool < toDo effort source.pool := by
    intro source event target roused joins
    obtain ⟨_, _, _, _, moved, getsOn, _⟩ := worker_of_joins roused joins
    exact toDo_step moved getsOn
  refine ⟨fun more t joining => ⟨?_, fun stuck => ?_⟩, ?_⟩
  · have bound := (joining.length_le_rank Roused (fun s => toDo effort s.pool) kept lowers roused).1
    omega
  · obtain ⟨rousedStill, after, workers⟩ := events_of_joins roused joining
    rw [shut] at after
    have poolRun := pool_run run
    have leaving : ∀ event ∈ more.filterMap poolEvent?, Leaving event := by
      intro event member
      obtain ⟨index, action, rfl⟩ := workers event member
      trivial
    have shutdown : Steps Pool.step s.pool .shutdown s.pool.shutdown := rfl
    have whole := (poolRun.snoc shutdown).append after
    have exited : ∀ worker ∈ t.pool.workers, worker.state = .exited := by
      by_contra staying
      push Not at staying
      have stillCounted : ∀ event ∈ events.filterMap poolEvent? ++ [.shutdown] ++ more.filterMap poolEvent?,
          Counted event := by
        intro event member submission submits
        simp only [List.mem_append, List.mem_singleton] at member
        rcases member with (before | rfl) | later
        · exact counted event before submission submits
        · cases submits
        · obtain ⟨index, action, rfl⟩ := workers event later
          cases submits
      obtain ⟨event, later, joins⟩ := exists_joins whole stillCounted rousedStill staying
      exact stuck event later joins
    exact ⟨exited, fun job => reports_leaving poolRun after leaving exited job⟩
  · exact exists_run_to_end Roused (fun s => toDo effort s.pool) kept lowers next roused

/-- One worker sleeps and the other one has the only task in its hands. -/
def heldTape : List (ConditionEvent Unit Unit) := sleepingTape ++ [.pool (.worker 1 .take) ∅]

theorem shutdown_returns_sleeping : ∃ s next t : ConditionPool Unit Unit, ∃ more,
    Run (Steps ConditionPool.step) (.init 1 1) heldTape s ∧ s.step (.pool .shutdown {.worker 0}) = some next ∧
      Run (Joins fun _ => 0) next more t ∧ (∀ worker ∈ t.pool.workers, worker.state = .exited) ∧
      reports (more.filterMap poolEvent?) 0 ≠ [] := by
  have executed : (replay ConditionPool.step (.init 1 1) heldTape).map (fun s =>
      ((s.step (.pool .shutdown {.worker 0})).isSome, decide (LastTaken s.pool 0))) = some (true, true) := by decide
  obtain ⟨s, replayed, facts⟩ := Option.map_eq_some_iff.mp executed
  obtain ⟨stops, taken⟩ := Prod.mk.inj facts
  obtain ⟨next, stepped⟩ := Option.isSome_iff_exists.mp stops
  have calls : heldTape.filterMap poolEvent? = [.enqueueLoad 7 1 [()], .worker 1 .take] := rfl
  have counted : ∀ event ∈ heldTape.filterMap poolEvent?, Counted event := by
    intro event member submission submits
    rw [calls] at member
    simp only [List.mem_cons, List.not_mem_nil, or_false] at member
    rcases member with rfl | rfl
    · cases submits
      rfl
    · cases submits
  have run := Run.of_replay replayed
  obtain ⟨every, more, t, joining, stuck⟩ := shutdown_returns run counted stepped fun _ => 0
  obtain ⟨-, ended⟩ := every more t joining
  obtain ⟨exited, reported⟩ := ended stuck
  exact ⟨s, next, t, more, run, stepped, joining, exited, (reported 0).mpr (of_decide_eq_true taken)⟩

end Shutdown

end KVTiering.Soundness.ThreadPool
