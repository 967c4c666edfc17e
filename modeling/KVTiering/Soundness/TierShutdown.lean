import KVTiering.Model.TierShutdown
import KVTiering.Soundness.LookupProgress
import KVTiering.Soundness.PoolProgress

/-! # Shutting the tier down comes to an end

The owner joins the lookup worker, then the threads of the pool, and closes the segment store last. Each of the joins
returns, because what the joined threads have left to do is bounded and some thread can always go on; and nothing is
left that could use the store after it is closed.
-/

namespace KVTiering.Soundness.TierThreads

open Model AsyncLookup ThreadPool

variable {τ κ : Type} {nReadThreads nWriteThreads : ℕ} {s next : TierThreads τ κ} {event : ThreadsEvent τ κ}

/-! ## The two parts -/

/-- The step of the lookup manager in a step of the tier. -/
def lookupEvent? : ThreadsEvent τ κ → Option LookupEvent
  | .lookup event => some event
  | .shutdown => some .postSentinel
  | _ => none

/-- The step of the pool in a step of the tier. -/
def conditionEvent? : ThreadsEvent τ κ → Option (ConditionEvent τ κ)
  | .pool event => some event
  | .stopPool woken => some (.pool .shutdown woken)
  | _ => none

theorem lookup_step (stepped : s.step event = some next) :
    (∃ label, lookupEvent? event = some label ∧ s.lookupManager.step label = some next.lookupManager) ∨
      lookupEvent? event = none ∧ next.lookupManager = s.lookupManager := by
  cases TierThreads.moves_of_step stepped with
  | lookup _ moved => exact .inl ⟨_, rfl, moved⟩
  | shutdown => exact .inl ⟨_, rfl, rfl⟩
  | _ => exact .inr ⟨rfl, rfl⟩

theorem condition_step (stepped : s.step event = some next) :
    (∃ label, conditionEvent? event = some label ∧ s.pool.step label = some next.pool) ∨
      conditionEvent? event = none ∧ next.pool = s.pool := by
  cases TierThreads.moves_of_step stepped with
  | pool _ moved => exact .inl ⟨_, rfl, moved⟩
  | stopPool _ _ moved => exact .inl ⟨_, rfl, moved⟩
  | _ => exact .inr ⟨rfl, rfl⟩

theorem condition_run {events : List (ThreadsEvent τ κ)}
    (run : Run (Steps TierThreads.step) (.init nReadThreads nWriteThreads) events s) :
    Run (Steps ConditionPool.step) (.init nReadThreads nWriteThreads) (events.filterMap conditionEvent?) s.pool :=
  run.project (fun s : TierThreads τ κ => s.pool) conditionEvent? fun _ _ _ moved => condition_step moved

/-! ## Where the threads stand -/

/-- The lookup worker has been told to end behind the batches that are posted. -/
def Told (m : AsyncLookupManager) : Prop :=
  m.worker ≠ .stopped ∧ ∃ front : List (List LookupQuery), m.lookupQueue = front.map some ++ [none]

/-- The lookup worker has ended and has left nothing behind. -/
def Ended (m : AsyncLookupManager) : Prop := m.worker = .stopped ∧ m.lookupQueue = []

theorem Told.step {m m' : AsyncLookupManager} (told : Told m) {event : LookupEvent} (working : event.ofWorker = true)
    (moved : m.step event = some m') : Told m' ∨ Ended m' := by
  obtain ⟨going, front, queue⟩ := told
  cases AsyncLookupManager.moves_of_step moved with
  | stop idle sentinel =>
    cases front with
    | nil =>
      rw [queue, List.map_nil, List.nil_append, List.cons.injEq] at sentinel
      exact .inr ⟨rfl, sentinel.2.symm⟩
    | cons batch front => simp [queue] at sentinel
  | getBatch idle taken =>
    cases front with
    | nil => simp [queue] at taken
    | cons batch front =>
      rw [queue, List.map_cons, List.cons_append, List.cons.injEq] at taken
      refine .inl ⟨?_, front, taken.2.symm⟩
      dsimp only
      split <;> simp
  | answerGroup => exact .inl ⟨by simp, front, queue⟩
  | postResults => exact .inl ⟨by simp, front, queue⟩
  | _ => cases working

theorem Ended.no_step {m m' : AsyncLookupManager} (ended : Ended m) {event : LookupEvent}
    (working : event.ofWorker = true) : m.step event ≠ some m' := by
  intro moved
  have stopped := ended.1
  cases AsyncLookupManager.moves_of_step moved with
  | stop idle | getBatch idle => simp [idle] at stopped
  | answerGroup busy | postResults busy => simp [busy] at stopped
  | _ => cases working

theorem told_of_open {m : AsyncLookupManager} (opened : Open m) : Told m.postSentinel := by
  refine ⟨opened.2, m.lookupQueue.reduceOption, ?_⟩
  rw [map_some_reduceOption opened.1]
  rfl

/-- A thread that has been joined takes no step. -/
theorem no_step_of_joined {p : ConditionPool τ κ} (joined : p.pool.joined = true) {event : ConditionEvent τ κ}
    (working : event.ofWorker = true) {next : ConditionPool τ κ} : p.step event ≠ some next := by
  intro stepped
  have exited : ∀ worker ∈ p.pool.workers, worker.state = .exited := by
    intro worker member
    have gone := List.all_eq_true.mp joined worker member
    split at gone
    · assumption
    · cases gone
  cases ConditionPool.moves_of_step stepped with
  | @pool moves woken pool _ _ moved =>
    cases moves with
    | worker index action =>
      obtain ⟨before, after, loadPriority, source, target, middle, workers, _, moves, _⟩ := Pool.workerStep_cases moved
      have gone := exited ⟨loadPriority, source⟩ (by simp [workers])
      dsimp only at gone
      subst gone
      cases moves
    | _ => cases working
  | park _ found => cases exited _ (List.mem_of_getElem? found)
  | _ => cases working

theorem roused_step {p next : ConditionPool τ κ} (roused : Roused p) {event : ConditionEvent τ κ}
    (working : event.ofWorker = true) (stepped : p.step event = some next) : Roused next := by
  obtain ⟨stopped, nobody⟩ := roused
  cases ConditionPool.moves_of_step stepped with
  | @pool moves woken pool _ _ moved =>
    cases moves with
    | worker index action =>
      refine ⟨(workerStep_counters moved).2.1.trans stopped, ?_⟩
      rw [nobody, Finset.empty_sdiff]
    | _ => cases working
  | park _ _ going => simp [stopped] at going
  | _ => cases working

theorem caller_of_worker {p next : ConditionPool τ κ} {event : ConditionEvent τ κ} (working : event.ofWorker = true)
    (stepped : p.step event = some next) : next.caller = p.caller := by
  cases ConditionPool.moves_of_step stepped with
  | pool => rfl
  | park => rfl
  | _ => cases working

/-- What each stage of `shutdown` has behind it. -/
structure Staged (s : TierThreads τ κ) : Prop where
  running : s.owner = .running → Open s.lookupManager
  outside : s.owner ≠ .running → s.pool.caller = .outside
  joiningLookups : s.owner = .joiningLookups → Told s.lookupManager ∨ Ended s.lookupManager
  joiningThreads : s.owner = .joiningThreads ∨ s.owner = .closed → Ended s.lookupManager ∧ Roused s.pool
  closed : s.owner = .closed → s.pool.pool.joined = true

theorem calling_iff : s.calling = true ↔ s.owner = .running ∧ s.pool.caller = .outside := by
  simp [TierThreads.calling]

theorem Staged.step (staged : Staged s) (stepped : s.step event = some next) : Staged next := by
  obtain ⟨running, outside, joiningLookups, joiningThreads, closed⟩ := staged
  cases TierThreads.moves_of_step stepped with
  | @lookup event lookupManager allowed moved =>
    have working : s.owner ≠ .running → event.ofWorker = true := by
      intro inside
      rcases allowed with working | ⟨_, calling⟩
      · exact working
      · exact absurd (calling_iff.mp calling).1 inside
    refine ⟨fun going => ?_, outside, fun joining => ?_, fun joining => ?_, closed⟩
    · refine (running going).step ?_ moved
      rintro rfl
      simp [LookupEvent.ofWorker, LookupEvent.ofOwner] at allowed
    · have inside : s.owner ≠ .running := by simp [show s.owner = .joiningLookups from joining]
      rcases joiningLookups joining with told | ended
      · exact told.step (working inside) moved
      · exact absurd moved (ended.no_step (working inside))
    · have inside : s.owner ≠ .running := by
        rcases joining with joining | joining <;> simp [show s.owner = _ from joining]
      exact absurd moved ((joiningThreads joining).1.no_step (working inside))
  | @pool event pool allowed moved =>
    have working : s.owner ≠ .running → event.ofWorker = true := fun inside =>
      allowed.resolve_right fun owner => inside owner.2
    refine ⟨running, fun inside => ?_, joiningLookups, fun joining => ?_, fun joining => ?_⟩
    · exact (caller_of_worker (working inside) moved).trans (outside inside)
    · have inside : s.owner ≠ .running := by
        rcases joining with joining | joining <;> simp [show s.owner = _ from joining]
      exact ⟨(joiningThreads joining).1, roused_step (joiningThreads joining).2 (working inside) moved⟩
    · have inside : s.owner ≠ .running := by simp [show s.owner = .closed from joining]
      exact absurd moved (no_step_of_joined (closed joining) (working inside))
  | shutdown calling =>
    obtain ⟨going, free⟩ := calling_iff.mp calling
    exact ⟨by simp, fun _ => free, fun _ => .inl (told_of_open (running going)), by simp, by simp⟩
  | @stopPool woken pool joining stopped moved =>
    have free := outside (by simp [joining])
    have ended : Ended s.lookupManager :=
      (joiningLookups joining).resolve_left fun told => told.1 stopped
    have roused := (roused_of_shutdown moved).1
    cases ConditionPool.moves_of_step moved with
    | pool => exact ⟨by simp, fun _ => free, by simp, fun _ => ⟨ended, roused⟩, by simp⟩
  | close joining joined =>
    exact ⟨by simp, fun _ => outside (by simp [joining]), by simp, fun _ => joiningThreads (.inl joining),
      fun _ => joined⟩

theorem staged_of_run {events : List (ThreadsEvent τ κ)}
    (run : Run (Steps TierThreads.step) (.init nReadThreads nWriteThreads) events s) : Staged s := by
  apply run.preserves Staged
  · refine ⟨fun _ => open_init, fun inside => absurd rfl inside, ?_, ?_, ?_⟩ <;> simp [TierThreads.init]
  · exact fun source event target _ staged moved => staged.step moved

/-- Nothing is done in the tier once it is closed. -/
theorem Staged.no_step (staged : Staged s) (closed : s.owner = .closed) : s.step event = none := by
  rw [Option.eq_none_iff_forall_ne_some]
  intro next stepped
  cases TierThreads.moves_of_step stepped with
  | lookup allowed moved =>
    refine (staged.joiningThreads (.inr closed)).1.no_step ?_ moved
    exact allowed.resolve_right fun owner => by simp [calling_iff, closed] at owner
  | pool allowed moved =>
    refine no_step_of_joined (staged.closed closed) ?_ moved
    exact allowed.resolve_right fun owner => by simp [closed] at owner
  | shutdown calling => simp [calling_iff, closed] at calling
  | stopPool joining | close joining => simp [closed] at joining

/-! ## What is left to do -/

/-- The steps that the lookup worker has left before it ends. -/
def lookupsLeft (m : AsyncLookupManager) : ℕ :=
  stepsLeft m.worker + (m.lookupQueue.map fun item => item.elim 1 batchSteps).sum

theorem lookupsLeft_lowered {m m' : AsyncLookupManager} {event : LookupEvent} (working : event.ofWorker = true)
    (moved : m.step event = some m') : lookupsLeft m' < lookupsLeft m := by
  cases AsyncLookupManager.moves_of_step moved with
  | stop idle queue => simp [lookupsLeft, idle, queue, stepsLeft]
  | @getBatch pending rest idle queue =>
    have sooner := stepsLeft_taken pending
    simp only [lookupsLeft, idle, queue, List.map_cons, List.sum_cons, Option.elim_some, stepsLeft] at sooner ⊢
    omega
  | answerGroup busy =>
    simp only [lookupsLeft, busy, stepsLeft, List.length_cons]
    omega
  | postResults busy =>
    simp only [lookupsLeft, busy, stepsLeft]
    omega
  | _ => cases working

/-- The joins that the owner has in front of it. -/
def joinsLeft : OwnerState → ℕ
  | .joiningLookups => 2
  | .joiningThreads => 1
  | _ => 0

/-- A bound on the steps from inside `shutdown`. Stopping the pool wakes all of its threads. -/
def shutdownRank (effort : τ → ℕ) (s : TierThreads τ κ) : ℕ :=
  lookupsLeft s.lookupManager + workersLeft effort s.pool + (s.pool.pool.workers.length + 2) * joinsLeft s.owner

/-- The step of a pool's thread in a step of the tier. -/
def poolMoves? (event : ThreadsEvent τ κ) : Option (PoolEvent τ κ) := (conditionEvent? event).bind poolEvent?

/-- What the threads do while the owner is in `shutdown`, with tasks that end. -/
def Shuts (effort : τ → ℕ) (s : TierThreads τ κ) (event : ThreadsEvent τ κ) (next : TierThreads τ κ) : Prop :=
  s.owner ≠ .running ∧ s.step event = some next ∧
    ∀ moves, poolMoves? event = some moves → GetsOn effort s.pool.pool moves

variable {effort : τ → ℕ}

theorem workersLeft_shutdown (effort : τ → ℕ) {p next : ConditionPool τ κ} {woken : Finset PoolThread}
    (stepped : p.step (.pool .shutdown woken) = some next) :
    workersLeft effort next < workersLeft effort p + (p.pool.workers.length + 2) ∧
      next.pool.workers.length = p.pool.workers.length := by
  obtain ⟨_, same⟩ := roused_of_shutdown stepped
  have workers : next.pool.workers = p.pool.workers := by rw [same, Pool.shutdown]
  have fewer : toDo effort next.pool ≤ toDo effort p.pool := by
    rw [same]
    simp only [toDo, outstanding, Pool.shutdown, List.append_nil, List.map_nil, List.sum_nil, List.length_nil]
    omega
  have cheaper := Nat.mul_le_mul_left (p.pool.workers.length + 2) fewer
  refine ⟨?_, by rw [workers]⟩
  simp only [workersLeft, upright, workers]
  omega

theorem shutdownRank_lowered (idling : Idling s.pool) (shuts : Shuts effort s event next) :
    shutdownRank effort next < shutdownRank effort s := by
  obtain ⟨inside, stepped, getsOn⟩ := shuts
  cases TierThreads.moves_of_step stepped with
  | lookup allowed moved =>
    have working := allowed.resolve_right fun owner => inside (calling_iff.mp owner.2).1
    have lower := lookupsLeft_lowered working moved
    simp only [shutdownRank]
    omega
  | @pool event pool allowed moved =>
    have working := allowed.resolve_right fun owner => inside owner.2
    have lower := workersLeft_lowered idling moved working getsOn
    have length : pool.pool.workers.length = s.pool.pool.workers.length := by
      rcases pool_of_step moved with ⟨moves, _, stepped⟩ | ⟨_, same⟩
      · exact length_workers stepped
      · rw [same]
    simp only [shutdownRank, length]
    omega
  | shutdown calling => exact absurd (calling_iff.mp calling).1 inside
  | stopPool joining stopped moved =>
    obtain ⟨woken, length⟩ := workersLeft_shutdown effort moved
    simp only [shutdownRank, joining, joinsLeft, length]
    omega
  | close joining =>
    simp only [shutdownRank, joining, joinsLeft]
    omega

/-! ## The joins return -/

theorem exists_lookupStep {m : AsyncLookupManager} (told : Told m) :
    ∃ event m', event.ofWorker = true ∧ m.step event = some m' := by
  obtain ⟨going, front, queue⟩ := told
  cases working : m.worker with
  | waiting =>
    refine ⟨.getBatch, ?_⟩
    cases front <;> simp [AsyncLookupManager.step, AsyncLookupManager.getBatch, working, queue, LookupEvent.ofWorker]
  | processing pending groups rest results =>
    cases rest with
    | nil =>
      refine ⟨.postResults, ?_⟩
      simp [AsyncLookupManager.step, AsyncLookupManager.postResults, working, LookupEvent.ofWorker]
    | cons group rest =>
      refine ⟨.answerGroup none, ?_⟩
      simp [AsyncLookupManager.step, AsyncLookupManager.answerGroup, working, LookupEvent.ofWorker]
  | stopped => exact absurd working going

theorem exists_shutdown {p : ConditionPool τ κ} (free : p.caller = .outside) :
    ∃ woken next, p.step (.pool .shutdown woken) = some next := by
  obtain ⟨woken, notifies⟩ := exists_notifies p.waiters p.waiters.card
  refine ⟨woken, { p with pool := p.pool.shutdown, waiters := p.waiters \ woken }, ?_⟩
  rw [ConditionPool.step, if_pos ⟨decide_eq_true free, notifies⟩]
  rfl

/-- Until the tier is closed some thread can go on. -/
theorem exists_shuts {past : List (PoolEvent τ κ)} (staged : Staged s)
    (run : Run (Steps Pool.step) (Pool.init nReadThreads nWriteThreads) past s.pool.pool)
    (counted : ∀ event ∈ past, Counted event) (inside : s.owner ≠ .running) (notClosed : s.owner ≠ .closed) :
    ∃ event next, Shuts effort s event next := by
  have free := staged.outside inside
  cases owner : s.owner with
  | running => exact absurd owner inside
  | closed => exact absurd owner notClosed
  | joiningLookups =>
    rcases staged.joiningLookups owner with told | ended
    · obtain ⟨event, m', working, moved⟩ := exists_lookupStep told
      refine ⟨.lookup event, { s with lookupManager := m' }, inside, ?_, by simp [poolMoves?, conditionEvent?]⟩
      simp [TierThreads.step, working, moved]
    · obtain ⟨woken, pool, moved⟩ := exists_shutdown free
      refine ⟨.stopPool woken, { s with pool := pool, owner := .joiningThreads }, inside, ?_, fun moves same => ?_⟩
      · simp [TierThreads.step, owner, ended.1, moved]
      · cases same
        trivial
  | joiningThreads =>
    by_cases joined : s.pool.pool.joined = true
    · exact ⟨.close, { s with owner := .closed }, inside, if_pos ⟨owner, joined⟩, by simp [poolMoves?, conditionEvent?]⟩
    · have staying : ∃ worker ∈ s.pool.pool.workers, worker.state ≠ .exited := by
        by_contra gone
        push Not at gone
        apply joined
        rw [Pool.joined, List.all_eq_true]
        intro worker member
        rw [gone worker member]
      have goes : ∃ event pool, Joins effort s.pool event pool :=
        exists_joins run counted (staged.joiningThreads (.inl owner)).2 staying
      obtain ⟨event, pool, workers, notWaitIdle, notCheckIdle, stepped, getsOn⟩ := goes
      have working : event.ofWorker = true := by
        cases event with
        | pool moves woken =>
          obtain ⟨index, action, rfl⟩ := workers moves rfl
          rfl
        | waitIdle => exact absurd rfl notWaitIdle
        | checkIdle => exact absurd rfl notCheckIdle
        | park => rfl
      refine ⟨.pool event, { s with pool := pool }, inside, ?_, getsOn⟩
      simp [TierThreads.step, working, stepped]

/-- No job is submitted from inside `shutdown`. -/
theorem counted_of_shuts (shuts : Shuts effort s event next) {moves : PoolEvent τ κ}
    (same : poolMoves? event = some moves) : Counted moves := by
  intro submission submits
  obtain ⟨inside, stepped, _⟩ := shuts
  cases TierThreads.moves_of_step stepped with
  | @pool event pool allowed moved =>
    have working := allowed.resolve_right fun owner => inside owner.2
    cases event with
    | pool acting woken =>
      cases same
      cases moves <;> simp [ConditionEvent.ofWorker, submission?] at working submits
    | _ => cases same
  | stopPool =>
    cases same
    cases submits
  | _ => cases same

theorem counted_of_run {more : List (ThreadsEvent τ κ)} (shutting : Run (Shuts effort) s more next) :
    ∀ moves ∈ more.filterMap poolMoves?, Counted moves := by
  refine shutting.invariant (fun past _ => ∀ moves ∈ past.filterMap poolMoves?, Counted moves) (by simp) ?_
  intro past source event target _ earlier shuts moves member
  rw [List.filterMap_append, List.mem_append] at member
  rcases member with before | last
  · exact earlier moves before
  · obtain ⟨acting, single, same⟩ := List.mem_filterMap.mp last
    obtain rfl := List.mem_singleton.mp single
    exact counted_of_shuts shuts same

theorem inside_of_shuts (shuts : Shuts effort s event next) : next.owner ≠ .running := by
  obtain ⟨inside, stepped, _⟩ := shuts
  cases TierThreads.moves_of_step stepped with
  | lookup => exact inside
  | pool => exact inside
  | _ => simp

theorem idling_of_shuts (idling : Idling s.pool) (shuts : Shuts effort s event next) : Idling next.pool := by
  rcases condition_step shuts.2.1 with ⟨label, _, stepped⟩ | ⟨_, same⟩
  · exact idling.step stepped
  · rwa [same]

theorem pool_run_of_run {events : List (ThreadsEvent τ κ)}
    (run : Run (Steps TierThreads.step) (.init nReadThreads nWriteThreads) events s) :
    Run (Steps Pool.step) (Pool.init nReadThreads nWriteThreads) (events.filterMap poolMoves?) s.pool.pool := by
  have steps := pool_run (condition_run run)
  rwa [List.filterMap_filterMap] at steps

/-- A worker that has ended has answered all that was posted before. -/
theorem recorded_of_ended {m m' : AsyncLookupManager} (opened : Open m) {events : List LookupEvent}
    (run : Run (Steps AsyncLookupManager.step) m events m') (ended : Ended m') :
    ∀ query ∈ posted m, Recorded m' query := by
  cases opened.serving.run run with
  | answered all => exact all
  | underway front back _ going => exact absurd ended.1 going

/-- `shutdown` returns, whatever the other threads were doing and as long as each task of the pool ends: they can
take no more than `shutdownRank` steps, and where they have none left the owner has come to the end. Then the lookup
worker has answered all queries that were posted, and no thread has any step left that could use the store. -/
theorem tierShutdown_returns {events : List (ThreadsEvent τ κ)}
    (run : Run (Steps TierThreads.step) (.init nReadThreads nWriteThreads) events s)
    (counted : ∀ event ∈ events.filterMap poolMoves?, Counted event) (stepped : s.step .shutdown = some next)
    (effort : τ → ℕ) :
    (∀ more t, Run (Shuts effort) next more t → more.length ≤ shutdownRank effort next ∧
      ((∀ event later, ¬ Shuts effort t event later) → t.owner = .closed ∧ (∀ event, t.step event = none) ∧
        ∀ query ∈ posted s.lookupManager, Recorded t.lookupManager query)) ∧
      ∃ more t, Run (Shuts effort) next more t ∧ ∀ event later, ¬ Shuts effort t event later := by
  have begun := run.snoc stepped
  have idling : Idling next.pool := idling_of_run (condition_run begun)
  have kept : ∀ (source : TierThreads τ κ) event target, Idling source.pool → Shuts effort source event target →
      Idling target.pool := fun source event target idling shuts => idling_of_shuts idling shuts
  have lowers : ∀ (source : TierThreads τ κ) event target, Idling source.pool → Shuts effort source event target →
      shutdownRank effort target < shutdownRank effort source :=
    fun source event target idling shuts => shutdownRank_lowered idling shuts
  refine ⟨fun more t shutting => ⟨?_, fun stuck => ?_⟩, ?_⟩
  · have bound := (shutting.length_le_rank (fun s => Idling s.pool) (shutdownRank effort) kept lowers idling).1
    omega
  · have after := shutting.mono fun _ _ _ shuts => shuts.2.1
    have whole := begun.append after
    have staged := staged_of_run whole
    have going : s.owner = .running := by
      cases TierThreads.moves_of_step stepped with
      | shutdown calling => exact (calling_iff.mp calling).1
    have inside : t.owner ≠ .running := by
      apply shutting.preserves fun t => t.owner ≠ .running
      · cases TierThreads.moves_of_step stepped with
        | shutdown => simp
      · exact fun source event target _ _ shuts => inside_of_shuts shuts
    have stillCounted : ∀ moves ∈ (events ++ [ThreadsEvent.shutdown] ++ more).filterMap poolMoves?, Counted moves := by
      rw [List.filterMap_append, List.filterMap_append]
      intro moves member
      simp only [List.mem_append] at member
      rcases member with (before | began) | later
      · exact counted moves before
      · cases began
      · exact counted_of_run shutting moves later
    have closed : t.owner = .closed := by
      by_contra notClosed
      obtain ⟨event, later, shuts⟩ := exists_shuts staged (pool_run_of_run whole) stillCounted inside notClosed
      exact stuck event later shuts
    refine ⟨closed, fun event => staged.no_step closed, ?_⟩
    have lookups : Run (Steps AsyncLookupManager.step) s.lookupManager _ t.lookupManager :=
      ((Run.single stepped).append after).project (fun s : TierThreads τ κ => s.lookupManager) lookupEvent?
        fun _ _ _ moved => lookup_step moved
    exact recorded_of_ended ((staged_of_run run).running going) lookups (staged.joiningThreads (.inr closed)).1
  · exact exists_run_to_end (fun s => Idling s.pool) (shutdownRank effort) kept lowers next idling

/-- A batch is posted, a worker has fallen asleep, and a task is queued. -/
def busyTape : List (ThreadsEvent Unit Unit) :=
  [.lookup (.lookup [1] ⟨"r1", none⟩), .lookup .flush, .pool (.park 0),
    .pool (.pool (.enqueueLoad 7 1 [()]) {.worker 0}), .pool (.pool (.worker 1 .take) ∅)]

theorem tierShutdown_returns_busy : ∃ s next t : TierThreads Unit Unit, ∃ more,
    Run (Steps TierThreads.step) (.init 1 1) busyTape s ∧ s.step .shutdown = some next ∧
      Run (Shuts fun _ => 0) next more t ∧ t.owner = .closed ∧
      ∃ query ∈ posted s.lookupManager, Recorded t.lookupManager query := by
  have executed : (replay TierThreads.step (.init 1 1) busyTape).map (fun s =>
      ((s.step .shutdown).isSome, (posted s.lookupManager).length)) = some (true, 1) := by decide
  obtain ⟨s, replayed, facts⟩ := Option.map_eq_some_iff.mp executed
  obtain ⟨stops, waits⟩ := Prod.mk.inj facts
  obtain ⟨next, stepped⟩ := Option.isSome_iff_exists.mp stops
  obtain ⟨query, member⟩ := List.exists_mem_of_length_pos (waits.symm ▸ one_pos)
  have counted : ∀ event ∈ busyTape.filterMap poolMoves?, Counted event := by
    intro event member submission submits
    have calls : busyTape.filterMap poolMoves? = [.enqueueLoad 7 1 [()], .worker 1 .take] := rfl
    rw [calls] at member
    simp only [List.mem_cons, List.not_mem_nil, or_false] at member
    rcases member with rfl | rfl
    · cases submits
      rfl
    · cases submits
  have run := Run.of_replay replayed
  obtain ⟨every, more, t, shutting, stuck⟩ := tierShutdown_returns run counted stepped fun _ => 0
  obtain ⟨-, ended⟩ := every more t shutting
  obtain ⟨closed, -, recorded⟩ := ended stuck
  exact ⟨s, next, t, more, run, stepped, shutting, closed, query, member, recorded query member⟩

end KVTiering.Soundness.TierThreads
