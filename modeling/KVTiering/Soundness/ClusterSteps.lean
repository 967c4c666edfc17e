import KVTiering.Soundness.Cluster
import KVTiering.Soundness.LocationCache
import KVTiering.Soundness.PoolTasks
import KVTiering.Soundness.VectoredIo

/-! # What a step of a cluster does

Each step is looked at from four sides: the jobs it submits, the tasks it leaves to run, the bytes it writes and
the tables it changes.
-/

namespace KVTiering.Soundness.Cluster

open Model ThreadPool

variable {ι : Type} [DecidableEq ι] {c d : Cluster ι} {event : ClusterEvent ι} {process : ι}

/-! ## Jobs -/

/-- A job is never forgotten. -/
theorem job_kept (moved : c.step event = some d) {reference : ℕ} {job : TierJob}
    (submitted : (c.jobs process)[reference]? = some job) : (d.jobs process)[reference]? = some job := by
  rcases step_pool moved process with ⟨_, _, jobs⟩ | ⟨_, _, _, ⟨_, jobs⟩ | ⟨_, _, _, _, jobs⟩⟩
  · rwa [jobs]
  · rwa [jobs]
  · rw [jobs, List.getElem?_append_left (List.getElem?_eq_some_iff.mp submitted).1]
    exact submitted

/-- The step submits the job: its tasks are given to the pool, and all bytes are left alone. -/
structure Opened (c : Cluster ι) (event : ClusterEvent ι) (d : Cluster ι) (process : ι) (job : TierJob) : Prop where
  opens : ∃ metadata opening, Opens c process metadata event job d.shared opening
  memory : d.memory = c.memory
  segments : d.segments = c.segments
  live : ∀ task ∈ (submission (c.config process).storageLayout (c.io process) job).tasks,
    Live (d.pool process) (c.pool process).jobs.length task

/-- A job was there before the step, or the step submits it. -/
theorem job_of_step (moved : c.step event = some d) {reference : ℕ} {job : TierJob}
    (submitted : (d.jobs process)[reference]? = some job) : (c.jobs process)[reference]? = some job ∨
      reference = (c.jobs process).length ∧ Opened c event d process job := by
  cases step_moves moved with
  | stored | unlinked | overwritten | polled => exact .inl submitted
  | worked _ effect => exact .inl (effect.outsidePools.jobs ▸ submitted)
  | @opened acting metadata _ opened shared opening pool opens stepped =>
    rcases eq_or_ne process acting with rfl | differ
    · simp only [Function.update_self] at submitted
      rcases Nat.lt_or_ge reference (c.jobs process).length with old | new
      · rw [List.getElem?_append_left old] at submitted
        exact .inl submitted
      · rw [List.getElem?_append_right new, List.getElem?_singleton] at submitted
        split at submitted
        · next first =>
          obtain rfl := Option.some.inj submitted
          refine .inr ⟨by omega, ⟨metadata, opening, opens⟩, rfl, rfl, fun task member => ?_⟩
          simp only [Function.update_self]
          exact .inl ((mem_enqueued stepped opens.announces.2).mpr (.inr ⟨member, rfl⟩))
        · cases submitted
    · exact .inl (by simpa [differ] using submitted)

/-! ## Tasks -/

/-- The worker that takes the step is running a task of the job. -/
def Works (c : Cluster ι) (process : ι) (reference : ℕ) : ClusterEvent ι → Prop
  | .worker acting index _ _ => acting = process ∧
      ∃ worker task, (c.pool process).workers[index]? = some worker ∧ worker.state = .running task reference
  | _ => False

omit [DecidableEq ι] in
theorem works_unique {other : ι} {reference reference' : ℕ} (works : Works c process reference event)
    (works' : Works c other reference' event) : process = other ∧ reference = reference' := by
  cases event with
  | worker acting index action outcome =>
    obtain ⟨rfl, worker, task, found, running⟩ := works
    obtain ⟨rfl, worker', task', found', running'⟩ := works'
    obtain rfl := Option.some.inj (found.symm.trans found')
    cases running.symm.trans running'
    exact ⟨rfl, rfl⟩
  | _ => exact works.elim

/-- The step is the next call of the task, and `rest` is what is left of it. -/
structure Performs (c : Cluster ι) (process : ι) (reference : ℕ) (task : Task) (event : ClusterEvent ι)
    (d : Cluster ι) (call : IoCall) (rest : Task) : Prop where
  works : Works c process reference event
  next : ∃ calls, task.calls = call :: calls ∧ rest.calls = c.rest calls call
  performed : ∃ middle, c.perform process call = some middle ∧ d.segments = middle.segments ∧
    d.memory = middle.memory
  live : Live (d.pool process) reference rest

/-- Where a task that is live after a step comes from: it was live, or its job is submitted, or a call has been
made. -/
theorem live_moves (moved : c.step event = some d) {reference : ℕ} {task : Task}
    (live : Live (d.pool process) reference task) : Live (c.pool process) reference task ∨
      (∃ metadata job opening, Opens c process metadata event job d.shared opening ∧
        reference = (c.pool process).jobs.length ∧ d.jobs process = c.jobs process ++ [job] ∧
        task ∈ (submission (c.config process).storageLayout (c.io process) job).tasks) ∨
      ∃ earlier call calls, Live (c.pool process) reference earlier ∧ earlier.calls = call :: calls ∧
        task.calls = c.rest calls call := by
  cases step_moves moved with
  | stored | unlinked | overwritten => exact .inl live
  | @opened acting metadata _ job shared opening pool opens stepped =>
    rcases eq_or_ne process acting with rfl | differ
    · simp only [Function.update_self] at live
      rcases live_of_step stepped live with old | ⟨submission, submits, fresh, member⟩ |
        ⟨index, worker, earlier, same, _⟩
      · exact .inl old
      · rw [opens.announces.2] at submits
        obtain rfl := Option.some.inj submits
        exact .inr (.inl ⟨metadata, job, opening, opens, fresh, by simp, member⟩)
      · rw [same] at opens
        cases opens
    · exact .inl (by simpa [differ] using live)
  | @polled acting _ operation pool made stepped =>
    rcases eq_or_ne process acting with rfl | differ
    · simp only [Function.update_self] at live
      rcases live_of_step stepped live with old | ⟨submission, submits, _⟩ | ⟨index, worker, earlier, same, _⟩
      · exact .inl old
      · rcases made with ⟨_, rfl⟩ | ⟨_, _, _, rfl⟩ <;> cases submits
      · rcases made with ⟨_, rfl⟩ | ⟨_, _, _, rfl⟩ <;> cases same
    · exact .inl (by simpa [differ] using live)
  | @worked acting index action outcome worker middle pool found effect stepped =>
    rcases eq_or_ne process acting with rfl | differ
    · simp only [Function.update_self] at live
      rcases live_of_step (show Pool.step _ (.worker index action) = some pool from stepped) live with
        old | ⟨_, submits, _⟩ | ⟨index', worker', earlier, same, found', running⟩
      · exact .inl old
      · cases submits
      · cases same
        obtain rfl := Option.some.inj (found.symm.trans found')
        rw [running] at effect
        cases effect with
        | performed next =>
          refine .inr (.inr ⟨earlier, _, _, .inr ⟨worker, List.mem_of_getElem? found, running⟩, next, rfl⟩)
        | none within => exact within.elim
    · exact .inl (by simpa [differ] using live)

/-- A live task stays live until its job has lost it, its next call is performed, or it is at its end. -/
theorem live_performs (moved : c.step event = some d) {reference : ℕ} {task : Task}
    (balanced : (ledger (c.events process) (c.pool process) reference).Balanced)
    (live : Live (c.pool process) reference task) : Live (d.pool process) reference task ∨
      Lost (d.events process) (d.pool process) reference ∨
      (∃ call rest middle, Performs c process reference task event d call rest ∧
        c.perform process call = some middle ∧ d.files = middle.files) ∨ task.calls = [] := by
  cases step_moves moved with
  | stored | unlinked | overwritten => exact .inl live
  | @opened acting metadata _ job shared opening pool opens stepped =>
    rcases eq_or_ne process acting with rfl | differ
    · simp only [Function.update_self]
      rcases live_step stepped live with kept | ⟨_, _, _, same, _⟩ | ⟨same, _⟩
      · exact .inl kept
      · rw [same] at opens
        cases opens
      · rw [same] at opens
        cases opens
    · exact .inl (by simpa [differ] using live)
  | @polled acting _ operation pool made stepped =>
    rcases eq_or_ne process acting with rfl | differ
    · simp only [Function.update_self]
      rcases live_step stepped live with kept | ⟨_, _, _, same, _⟩ | ⟨rfl, queued⟩
      · exact .inl kept
      · rcases made with ⟨_, rfl⟩ | ⟨_, _, _, rfl⟩ <;> cases same
      · cases stepped
        exact .inr (.inl (lost_of_cancelled balanced queued))
    · exact .inl (by simpa [differ] using live)
  | @worked acting index action outcome worker middle pool found effect stepped =>
    rcases eq_or_ne process acting with rfl | differ
    · simp only [Function.update_self]
      rcases live_step (show Pool.step _ (.worker index action) = some pool from stepped) live with
        kept | ⟨_, _, worker', same, found', running⟩ | ⟨same, _⟩
      · exact .inl kept
      · cases same
        obtain rfl := Option.some.inj (found.symm.trans found')
        rcases live_of_working stepped found running with ⟨rest, rfl, kept⟩ | ⟨rfl, unwinding⟩ | rfl
        · rw [running] at effect
          cases effect with
          | @performed _ _ call calls _ next performed =>
            refine .inr (.inr (.inl ⟨call, ⟨c.rest calls call, task.handler⟩, middle,
              ⟨⟨rfl, worker, task, found, running⟩, ⟨calls, next, rfl⟩, ⟨middle, performed, rfl, rfl⟩, ?_⟩,
              performed, rfl⟩))
            simpa using kept
          | none within => exact within.elim
        · obtain ⟨stopped, member, stoppedTask⟩ := unwinding
          exact .inr (.inl (.inr (.inl ⟨stopped, member, task, stoppedTask⟩)))
        · rw [running] at effect
          cases effect with
          | ended nothingLeft => exact .inr (.inr (.inr nothingLeft))
          | none within => exact within.elim
      · cases same
    · exact .inl (by simpa [differ] using live)

theorem live_kept (moved : c.step event = some d) {reference : ℕ} {task : Task}
    (balanced : (ledger (c.events process) (c.pool process) reference).Balanced)
    (live : Live (c.pool process) reference task) : Live (d.pool process) reference task ∨
      Lost (d.events process) (d.pool process) reference ∨
      (∃ call rest, Performs c process reference task event d call rest) ∨ task.calls = [] := by
  rcases live_performs moved balanced live with still | lost | ⟨call, rest, _, performs, _⟩ | ended
  · exact .inl still
  · exact .inr (.inl lost)
  · exact .inr (.inr (.inl ⟨call, rest, performs⟩))
  · exact .inr (.inr (.inr ended))

/-- A job in flight was in flight before the step, or is submitted by it. -/
theorem inFlight_moves (moved : c.step event = some d) {reference : ℕ}
    (inFlight : InFlight (d.pool process) reference) :
    InFlight (c.pool process) reference ∨ reference = (c.pool process).jobs.length := by
  rcases step_pool moved process with ⟨pool, _⟩ | ⟨operation, stepped, _⟩
  · exact .inl (pool ▸ inFlight)
  · exact (inFlight_of_step stepped inFlight).imp_right fun ⟨_, _, fresh⟩ => fresh

theorem lost_moves (moved : c.step event = some d) {reference : ℕ} (opened : reference < (c.pool process).jobs.length)
    (lost : Lost (c.events process) (c.pool process) reference) :
    Lost (d.events process) (d.pool process) reference := by
  rcases step_pool moved process with ⟨pool, events, _⟩ | ⟨operation, stepped, events, _⟩
  · rwa [pool, events]
  · rw [events]
    exact lost_step stepped opened lost

theorem called_moves (moved : c.step event = some d) {reference : ℕ}
    (called : true ∈ calls (c.events process) reference) : true ∈ calls (d.events process) reference := by
  rcases step_pool moved process with ⟨_, events, _⟩ | ⟨operation, _, events, _⟩
  · rwa [events]
  · rw [events, calls_snoc]
    exact List.mem_append_left _ called

/-! ## Bytes -/

/-- A call changes nothing of the primary tiers but what it reads into its own destinations. -/
theorem memory_of_made {call : IoCall} (made : Made c process call d) : d.memory = c.memory ∨
    ∃ data, d.memory = Function.update c.memory process (scatter (c.memory process) (destinations call) data) := by
  cases transferred_of_made made with
  | read => exact .inr ⟨_, rfl⟩
  | nothing | written | replaced => exact .inl rfl

/-- A call changes nothing of the segments, or writes a part of its buffers to its own place. -/
theorem segments_of_made {call : IoCall} (made : Made c process call d) : d.segments = c.segments ∨
    ∃ segmentId offset buffers transferred, call = .pwritev segmentId offset buffers ∧
      d.segments = Function.update c.segments segmentId
        (writeAt (c.segments segmentId) offset ((gather (c.memory process) buffers).take transferred)) := by
  cases transferred_of_made made with
  | written => exact .inr ⟨_, _, _, _, rfl, rfl⟩
  | nothing | read | replaced => exact .inl rfl

theorem shared_of_made {call : IoCall} (made : Made c process call d) : d.shared = c.shared := by
  cases transferred_of_made made <;> rfl

/-- The bytes that a step changes: none, what its caller writes to a primary tier, or those of one call. -/
theorem bytes_of_step (moved : c.step event = some d) : (d.segments = c.segments ∧ d.memory = c.memory) ∨
    (∃ process start data, event = .primaryWrite process start data ∧
      start + data.length ≤ (c.memory process).length ∧ d.segments = c.segments ∧
      d.memory = Function.update c.memory process (writeAt (c.memory process) start data)) ∨
    ∃ process reference task call calls middle, Works c process reference event ∧
      Live (c.pool process) reference task ∧ task.calls = call :: calls ∧ Made c process call middle ∧
      d.segments = middle.segments ∧ d.memory = middle.memory := by
  cases step_moves moved with
  | stored | unlinked | polled => exact .inl ⟨rfl, rfl⟩
  | opened => exact .inl ⟨rfl, rfl⟩
  | @overwritten acting start data inside => exact .inr (.inl ⟨acting, start, data, rfl, inside, rfl, rfl⟩)
  | @worked acting index action outcome worker middle pool found effect stepped =>
    have listed := List.mem_of_getElem? found
    generalize standing : worker.state = source at effect
    cases effect with
    | @performed task reference call calls _ next performed =>
      exact .inr (.inr ⟨acting, reference, task, call, calls, middle, ⟨rfl, worker, task, found, standing⟩,
        .inr ⟨worker, listed, standing⟩, next, .inl performed, rfl, rfl⟩)
    | @failed task reference transferred call calls next =>
      exact .inr (.inr ⟨acting, reference, task, call, calls, _, ⟨rfl, worker, task, found, standing⟩,
        .inr ⟨worker, listed, standing⟩, next, .inr ⟨transferred, rfl⟩, rfl, rfl⟩)
    | @handled task _ _ _ _ handled =>
      left
      cases handler : task.handler with
      | delete =>
        rw [handler] at handled
        obtain ⟨_, _, _, rfl⟩ := storeStep_cases handled
        exact ⟨rfl, rfl⟩
      | reraise | remove =>
        rw [handler] at handled
        cases handled
        exact ⟨rfl, rfl⟩
    | completed _ stored =>
      obtain ⟨_, _, _, rfl⟩ := storeStep_cases stored
      exact .inl ⟨rfl, rfl⟩
    | committed _ stored =>
      obtain ⟨_, _, _, rfl⟩ := storeStep_cases stored
      exact .inl ⟨rfl, rfl⟩
    | ended | unhandled | rolledBack | none => exact .inl ⟨rfl, rfl⟩

/-- The memory after a step of a worker of the job: what it was, unless the job has lost the task or a call of it
is performed. -/
theorem memory_of_works (moved : c.step event = some d) {reference : ℕ} (works : Works c process reference event) :
    d.memory = c.memory ∨ Lost (d.events process) (d.pool process) reference ∨
      ∃ task call calls middle, Live (c.pool process) reference task ∧ task.calls = call :: calls ∧
        c.perform process call = some middle ∧ d.memory = middle.memory := by
  cases step_moves moved with
  | stored made => rcases made with ⟨_, _, rfl, _⟩ | ⟨_, _, rfl, _⟩ <;> exact works.elim
  | opened opens => cases opens <;> exact works.elim
  | unlinked | overwritten => exact works.elim
  | polled made => rcases made with ⟨rfl, _⟩ | ⟨_, _, rfl, _⟩ <;> exact works.elim
  | @worked acting index action outcome worker middle pool found effect stepped =>
    obtain ⟨rfl, worker', task, found', running⟩ := works
    obtain rfl := Option.some.inj (found.symm.trans found')
    simp only [Function.update_self]
    rcases live_of_working stepped found running with ⟨rest, rfl, _⟩ | ⟨rfl, unwinding⟩ | rfl
    · rw [running] at effect
      cases effect with
      | @performed _ _ call calls _ next performed =>
        exact .inr (.inr ⟨task, call, calls, middle, .inr ⟨worker, List.mem_of_getElem? found, running⟩, next,
          performed, rfl⟩)
      | none within => exact within.elim
    · obtain ⟨stopped, member, stoppedTask⟩ := unwinding
      exact .inr (.inl (.inr (.inl ⟨stopped, member, task, stoppedTask⟩)))
    · rw [running] at effect
      cases effect with
      | ended => exact .inl rfl
      | none within => exact within.elim

/-! ## Tables -/

/-- The operation neither indexes a plan nor restarts a store. -/
def Plain : StoreEvent ι → Prop
  | .getLocations _ _ | .prepareStore _ _ _ | .delete _ _ => True
  | _ => False

/-- The operation indexes the plan of a job whose callback was called with success. -/
inductive Completing (c : Cluster ι) : StoreEvent ι → Prop
  | completed {process : ι} {worker : Worker Task} {reference : ℕ} {success : Bool} {plan : SegmentStorePlan}
      (member : worker ∈ (c.pool process).workers) (calling : worker.state = .inCallback reference success)
      (callback : ((c.pool process).jobState reference).onComplete = some plan) :
      Completing c (.completeStore process plan success)
  | committed {process : ι} {worker : Worker Task} {reference : ℕ} {plan : SegmentStorePlan} {read : List OffloadKey}
      (member : worker ∈ (c.pool process).workers) (calling : worker.state = .inCallback reference true)
      (callback : ((c.pool process).jobState reference).onComplete = some plan) :
      Completing c (.completeRaised process plan read)

/-- The operation on the tables and caches that a step is, if any. -/
theorem tables_of_step (moved : c.step event = some d) : d.shared = c.shared ∨
    ∃ operation, c.shared.step operation = some d.shared ∧ (Plain operation ∨ Completing c operation) := by
  cases step_moves moved with
  | unlinked | polled | overwritten => exact .inl rfl
  | @stored _ operation shared made stepped =>
    refine .inr ⟨operation, stepped, .inl ?_⟩
    rcases made with ⟨_, _, _, rfl⟩ | ⟨_, _, _, rfl⟩ <;> trivial
  | @opened acting metadata _ job shared opening pool opens stepped =>
    cases opens with
    | storeFiles | loadFiles => exact .inl rfl
    | storeSegments _ prepared =>
      refine .inr ⟨.prepareStore acting metadata.keys metadata.blockIds, ?_, .inl trivial⟩
      simp only [SharedStore.step, prepared]
    | loadSegments _ _ looked => exact .inr ⟨_, looked, .inl trivial⟩
  | @worked acting index action outcome worker middle pool found effect stepped =>
    have listed := List.mem_of_getElem? found
    generalize standing : worker.state = source at effect
    cases effect with
    | performed _ performed =>
      have same := shared_of_made (.inl performed)
      exact .inl same
    | @failed _ _ transferred call =>
      have same : (c.fail acting transferred call).shared = c.shared := shared_of_made (.inr ⟨transferred, rfl⟩)
      exact .inl same
    | @handled task _ _ _ _ handled =>
      cases handler : task.handler with
      | delete =>
        rw [handler] at handled
        obtain ⟨_, shared, deleted, rfl⟩ := storeStep_cases handled
        exact .inr ⟨_, deleted, .inl trivial⟩
      | reraise | remove =>
        rw [handler] at handled
        cases handled
        exact .inl rfl
    | completed callback stored =>
      obtain ⟨_, shared, indexed, rfl⟩ := storeStep_cases stored
      exact .inr ⟨_, indexed, .inr (.completed listed standing callback)⟩
    | committed callback stored =>
      obtain ⟨_, shared, indexed, rfl⟩ := storeStep_cases stored
      exact .inr ⟨_, indexed, .inr (.committed listed standing callback)⟩
    | ended | unhandled | rolledBack | none => exact .inl rfl

/-- A store keeps its arguments, and its process the plans it was given. -/
theorem store_kept {s t : SharedStore ι} {operation : StoreEvent ι} (moved : s.step operation = some t)
    (staying : Plain operation ∨ Completing c operation) (process : ι) :
    (t.store process).config = (s.store process).config ∧ ∀ plan ∈ s.plans process, plan ∈ t.plans process := by
  have updated : ∀ acting db (store : SegmentStore), store.config = (s.store acting).config →
      ((s.update acting db store).store process).config = (s.store process).config := by
    intro acting db store same
    rcases eq_or_ne process acting with rfl | differ
    · simpa using same
    · simp [differ]
  cases SharedStore.moves_of_step moved with
  | @prepareStore acting _ _ plan db store returned =>
    refine ⟨updated acting db store (by rw [(prepareStore_cases returned).1]; rfl), fun old member => ?_⟩
    rcases eq_or_ne process acting with rfl | differ
    · simp [member]
    · simpa [differ] using member
  | restart =>
    rcases staying with plain | completing
    · exact plain.elim
    · cases completing
  | _ => exact ⟨updated _ _ _ rfl, fun _ => id⟩

end KVTiering.Soundness.Cluster
