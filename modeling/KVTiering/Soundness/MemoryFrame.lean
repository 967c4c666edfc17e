import KVTiering.Soundness.Integrity
import KVTiering.Soundness.JobDrain

/-! # What the tier leaves alone in the primary tier

The tasks of a store only read the primary tier, and those of a load read into the slices of the blocks that the job
names, whatever the lengths of the locations and of the files. So a byte changes only when someone else writes to it,
or while a load in flight names its block; and when the pool is drained nothing changes until the next load.
-/

namespace KVTiering.Soundness

open Model

/-! ## Reads of a task -/

section Read

variable {io : IoConfig} {allowed : Slice → Prop} {state : IoState}

/-- What has been flushed reads into allowed slices, and what has not will. -/
structure Reads (allowed : Slice → Prop) (state : IoState) : Prop where
  calls : ∀ call ∈ state.calls, ∀ slice ∈ Cluster.destinations call, allowed slice
  views : ∀ view ∈ state.views, allowed view

theorem subset_of_vectored {offset : ℕ} {views : List Slice} {part : ℕ × List Slice}
    (member : part ∈ vectored io offset views) : part.2 ⊆ views := by
  obtain ⟨i, -, rfl⟩ := List.mem_map.mp member
  exact fun slice inPart => List.mem_of_mem_drop (List.mem_of_mem_take inPart)

theorem Reads.flush (reads : Reads allowed state) : Reads allowed (state.flush io .preadv) where
  calls call member slice inCall := by
    rcases List.mem_append.mp member with old | new
    · exact reads.calls call old slice inCall
    · obtain ⟨part, listed, rfl⟩ := List.mem_map.mp new
      exact reads.views slice (subset_of_vectored listed inCall)
  views view member := by cases member

theorem Reads.add (reads : Reads allowed state) (segment offset expected : ℕ) {view : Slice}
    (permitted : allowed view) : Reads allowed (state.add io .preadv segment offset expected view) := by
  have extended : ∀ {state : IoState}, Reads allowed state →
      Reads allowed { state with views := state.views ++ [view] } := by
    refine fun reads => ⟨reads.calls, fun other member => ?_⟩
    rcases List.mem_append.mp member with old | new
    · exact reads.views other old
    · rwa [List.mem_singleton.mp new]
  have flushed : Reads allowed (state.flush io .preadv) := reads.flush
  dsimp only [IoState.add]
  split_ifs
  · exact extended ⟨flushed.calls, flushed.views⟩
  · exact extended flushed
  · exact extended ⟨reads.calls, reads.views⟩
  · exact extended reads

theorem reads_loadEntries {entries : List (SegmentLocation × Slice)} (reads : Reads allowed state)
    (permitted : ∀ entry ∈ entries, allowed entry.2) {call : IoCall} (member : call ∈ loadEntries io state entries)
    {slice : Slice} (inCall : slice ∈ Cluster.destinations call) : allowed slice := by
  induction entries generalizing state with
  | nil => exact reads.flush.calls call member slice inCall
  | cons entry rest ih =>
    obtain ⟨location, destination⟩ := entry
    rw [loadEntries] at member
    split at member
    · rcases List.mem_append.mp member with old | raised
      · exact reads.calls call old slice inCall
      · rw [List.mem_singleton.mp raised] at inCall
        cases inCall
    · exact ih (reads.add _ _ _ (permitted _ (List.mem_cons_self ..)))
        (fun entry inRest => permitted entry (List.mem_cons_of_mem _ inRest)) member

theorem reads_loadChunk {chunk : List (OffloadKey × ℕ × SegmentLocation)} {call : IoCall}
    (member : call ∈ (loadChunk io chunk).calls) {slice : Slice} (inCall : slice ∈ Cluster.destinations call) :
    ∃ entry ∈ chunk, slice = blockSlice io.viewSize io.blockSize entry.2.1 := by
  rw [loadChunk_eq] at member
  have nothing : Reads (fun slice => ∃ entry ∈ chunk, slice = blockSlice io.viewSize io.blockSize entry.2.1)
      ⟨[], 0, 0, []⟩ := ⟨by simp, by simp⟩
  refine reads_loadEntries nothing (fun entry sorted => ?_) member inCall
  obtain ⟨source, inChunk, rfl⟩ := List.mem_map.mp (mem_sortedBy.mp sorted)
  exact ⟨source, inChunk, rfl⟩

end Read

namespace Cluster

open ThreadPool

/-- A task of a load reads into the blocks of its job, and reads a block file into the block given for its key. -/
theorem destinations_load {layout : StorageLayout} {io : IoConfig} {metadata : JobMetadata}
    {locations : List (Option SegmentLocation)} {task : Task}
    (member : task ∈ (submission layout io (.load metadata locations)).tasks) {call : IoCall}
    (listed : call ∈ task.calls) {slice : Slice} (inCall : slice ∈ destinations call) :
    ∃ key blockId, (key, blockId) ∈ metadata.keys.zip metadata.blockIds ∧
      slice = blockSlice io.viewSize io.blockSize blockId ∧ (call = .readv key slice io.blockSize ∨
        ∃ location, (key, blockId, some location) ∈ metadata.keys.zip (metadata.blockIds.zip locations)) := by
  have whole : ∀ key blockId, call ∈ (loadBlock io key blockId).calls →
      slice = blockSlice io.viewSize io.blockSize blockId ∧ call = .readv key slice io.blockSize := by
    intro key blockId only
    obtain rfl := List.mem_singleton.mp only
    obtain rfl := List.mem_singleton.mp inCall
    exact ⟨rfl, rfl⟩
  cases layout with
  | segment =>
    rcases mem_segmentLoadTasks.mp member with ⟨key, blockId, inZip, rfl⟩ | ⟨chunk, inValues, rfl⟩
    · obtain ⟨same, reading⟩ := whole key blockId listed
      exact ⟨key, blockId, mem_zip_first_of_mem_zip_zip inZip, same, .inl reading⟩
    · obtain ⟨⟨key, blockId, location⟩, inChunk, same⟩ := reads_loadChunk listed inCall
      have inZip := mem_segmentEntries.mp ⟨chunk, inValues, inChunk⟩
      exact ⟨key, blockId, mem_zip_first_of_mem_zip_zip inZip, same, .inr ⟨location, inZip⟩⟩
  | file =>
    obtain ⟨⟨key, blockId⟩, inZip, rfl⟩ := List.mem_map.mp member
    obtain ⟨same, reading⟩ := whole key blockId listed
    exact ⟨key, blockId, inZip, same, .inl reading⟩

/-- A task of a store reads into nothing. -/
theorem destinations_store {layout : StorageLayout} {io : IoConfig} {metadata : JobMetadata} {plan : SegmentStorePlan}
    {source : List UInt8} {task : Task} (member : task ∈ (submission layout io (.store metadata plan source)).tasks)
    {call : IoCall} (listed : call ∈ task.calls) : destinations call = [] := by
  cases layout with
  | segment =>
    obtain ⟨segmentId, offset, views, rfl⟩ := calls_segmentStoreTasks member listed
    rfl
  | file =>
    obtain ⟨item, -, rfl⟩ := List.mem_map.mp member
    rcases List.mem_cons.mp listed with rfl | last
    · rfl
    · rw [List.mem_singleton.mp last]
      rfl

/-! ## What a read changes -/

theorem fits_blockSlice {memory : List UInt8} (blockSize blockId : ℕ) :
    Fits memory (blockSlice memory.length blockSize blockId) := by
  simp only [Fits, blockSlice, sliceOf]
  omega

/-- A slice of a block has no bytes of other blocks. -/
theorem inside_blockSlice {viewSize blockSize blockId position : ℕ}
    (first : (blockSlice viewSize blockSize blockId).start ≤ position)
    (last : position < (blockSlice viewSize blockSize blockId).start + (blockSlice viewSize blockSize blockId).length) :
    blockId * blockSize ≤ position ∧ position < blockId * blockSize + blockSize := by
  simp only [blockSlice, sliceOf] at first last
  omega

/-- A byte that a read changes is in one of its buffers. -/
theorem inside_of_scattered {memory : List UInt8} {buffers : List Slice} (fits : ∀ slice ∈ buffers, Fits memory slice)
    {data : List UInt8} {position : ℕ} (changed : (scatter memory buffers data)[position]? ≠ memory[position]?) :
    ∃ slice ∈ buffers, slice.start ≤ position ∧ position < slice.start + slice.length := by
  by_contra outside
  have apart : ∀ slice ∈ buffers, Apart ⟨position, 1⟩ slice := by
    intro slice member
    have away : ¬(slice.start ≤ position ∧ position < slice.start + slice.length) :=
      fun inside => outside ⟨slice, member, inside⟩
    simp only [Apart]
    omega
  have same := congrArg (·[0]?) (readAt_scatter_apart fits apart data)
  simp only [getElem?_readAt, Nat.zero_lt_one, if_true, Nat.add_zero] at same
  exact changed same

/-! ## Steps -/

variable {ι : Type} [DecidableEq ι]

/-- The primary tiers keep their sizes, and what is left of a task is the rest of a task of its job. -/
structure Framed (size : ι → ℕ) (c : Cluster ι) : Prop where
  sized : ∀ process, (c.memory process).length = size process
  counted : ∀ process, (c.pool process).jobs.length = (c.jobs process).length
  tasks : ∀ (process : ι) (reference : ℕ) (task : Task), Live (c.pool process) reference task → ∃ job original,
    (c.jobs process)[reference]? = some job ∧ original ∈ (submission (c.config process).storageLayout
      (ioOf c.config (c.config process).segments.blockSize size process) job).tasks ∧ task.calls <:+ original.calls

/-- What makes a byte of a primary tier change: someone else writes to it, or the worker runs a task of a load that
names its block. -/
def Touches (c : Cluster ι) (event : ClusterEvent ι) (process : ι) (position : ℕ) : Prop :=
  (∃ start data, event = .primaryWrite process start data ∧ start ≤ position ∧ position < start + data.length) ∨
    ∃ reference metadata locations blockId, (c.jobs process)[reference]? = some (.load metadata locations) ∧
      Works c process reference event ∧ blockId ∈ metadata.blockIds ∧
      blockId * (c.config process).segments.blockSize ≤ position ∧
      position < blockId * (c.config process).segments.blockSize + (c.config process).segments.blockSize

variable {size : ι → ℕ} {c d : Cluster ι} {event : ClusterEvent ι} {process : ι}

omit [DecidableEq ι] in
theorem Framed.io (framed : Framed size c) (process : ι) :
    c.io process = ioOf c.config (c.config process).segments.blockSize size process := by
  rw [Cluster.io, framed.sized, ioOf]

omit [DecidableEq ι] in
/-- What is left of a task reads into blocks of its load. -/
theorem Framed.reads (framed : Framed size c) {reference : ℕ} {task : Task}
    (live : Live (c.pool process) reference task) {call : IoCall} (listed : call ∈ task.calls) {slice : Slice}
    (inCall : slice ∈ destinations call) : ∃ metadata locations blockId,
      (c.jobs process)[reference]? = some (.load metadata locations) ∧ blockId ∈ metadata.blockIds ∧
        slice = blockSlice (size process) (c.config process).segments.blockSize blockId := by
  obtain ⟨job, original, submitted, member, suffix⟩ := framed.tasks process reference task live
  cases job with
  | store =>
    rw [destinations_store member (suffix.subset listed)] at inCall
    cases inCall
  | load metadata locations =>
    obtain ⟨key, blockId, inZip, same, _⟩ := destinations_load member (suffix.subset listed) inCall
    exact ⟨metadata, locations, blockId, submitted, (List.of_mem_zip inZip).2, same⟩

omit [DecidableEq ι] in
theorem Framed.fits (framed : Framed size c) {reference : ℕ} {task : Task}
    (live : Live (c.pool process) reference task) {call : IoCall} (listed : call ∈ task.calls) :
    ∀ slice ∈ destinations call, Fits (c.memory process) slice := by
  intro slice inCall
  obtain ⟨_, _, blockId, _, _, rfl⟩ := framed.reads live listed inCall
  rw [← framed.sized]
  exact fits_blockSlice _ blockId

theorem Framed.step (framed : Framed size c)
    (counted : ∀ process, (d.pool process).jobs.length = (d.jobs process).length)
    (moved : c.step event = some d) : Framed size d where
  sized process := by
    rw [← framed.sized process]
    rcases bytes_of_step moved with ⟨_, memory⟩ | ⟨acting, start, data, _, inside, _, memory⟩ |
      ⟨acting, reference, task, call, calls, middle, _, live, next, made, _, memory⟩
    · rw [memory]
    · rw [memory]
      rcases eq_or_ne process acting with rfl | differ
      · rw [Function.update_self, length_writeAt_within inside]
      · rw [Function.update_of_ne differ]
    · rw [memory]
      rcases memory_of_made made with unchanged | ⟨data, scattered⟩
      · rw [unchanged]
      · rw [scattered]
        rcases eq_or_ne process acting with rfl | differ
        · rw [Function.update_self]
          exact length_scatter (framed.fits live (by simp [next])) data
        · rw [Function.update_of_ne differ]
  counted := counted
  tasks process reference task live := by
    rw [step_config moved]
    rcases live_moves moved live with old | ⟨metadata, job, opening, opens, fresh, jobs, member⟩ |
      ⟨earlier, call, calls, old, next, left⟩
    · obtain ⟨job, original, submitted, rest⟩ := framed.tasks process reference task old
      exact ⟨job, original, job_kept moved submitted, rest⟩
    · rw [framed.io] at member
      refine ⟨job, task, ?_, member, List.suffix_refl _⟩
      rw [jobs, fresh, framed.counted, List.getElem?_concat_length]
    · obtain ⟨job, original, submitted, member, suffix⟩ := framed.tasks process reference earlier old
      refine ⟨job, original, job_kept moved submitted, member, ?_⟩
      rw [next] at suffix
      rw [left]
      exact (rest_suffix c calls call).trans ((List.suffix_cons call calls).trans suffix)

/-- A byte that a step changes is touched by it. -/
theorem Framed.touches (framed : Framed size c) (moved : c.step event = some d) {position : ℕ}
    (changed : (d.memory process)[position]? ≠ (c.memory process)[position]?) : Touches c event process position := by
  rcases bytes_of_step moved with ⟨_, memory⟩ | ⟨acting, start, data, rfl, inside, _, memory⟩ |
    ⟨acting, reference, task, call, calls, middle, works, live, next, made, _, memory⟩
  · rw [memory] at changed
    exact absurd rfl changed
  · rw [memory] at changed
    rcases eq_or_ne process acting with rfl | differ
    · rw [Function.update_self] at changed
      refine .inl ⟨start, data, rfl, ?_⟩
      by_contra outside
      apply changed
      rcases Nat.lt_or_ge position (c.memory process).length with within | beyond
      · exact getElem?_writeAt_outside within (by omega)
      · rw [List.getElem?_eq_none beyond, List.getElem?_eq_none]
        rwa [length_writeAt_within inside]
    · rw [Function.update_of_ne differ] at changed
      exact absurd rfl changed
  · rw [memory] at changed
    rcases memory_of_made made with unchanged | ⟨data, scattered⟩
    · rw [unchanged] at changed
      exact absurd rfl changed
    · rw [scattered] at changed
      rcases eq_or_ne process acting with rfl | differ
      · rw [Function.update_self] at changed
        have listed : call ∈ task.calls := by simp [next]
        obtain ⟨slice, inCall, first, last⟩ := inside_of_scattered (framed.fits live listed) changed
        obtain ⟨metadata, locations, blockId, submitted, named, rfl⟩ := framed.reads live listed inCall
        exact .inr ⟨reference, metadata, locations, blockId, submitted, works, named, inside_blockSlice first last⟩
      · rw [Function.update_of_ne differ] at changed
        exact absurd rfl changed

/-! ## Runs -/

/-- Nothing asks for the primary tier of the process to be written. -/
def Spares (process : ι) : ClusterEvent ι → Prop
  | .submitLoad acting _ => acting ≠ process
  | .primaryWrite acting _ _ => acting ≠ process
  | _ => True

/-- No load of the process has a task. -/
def Unread (c : Cluster ι) (process : ι) : Prop :=
  ∀ reference task, Live (c.pool process) reference task → ∀ metadata locations,
    (c.jobs process)[reference]? ≠ some (.load metadata locations)

theorem Unread.step (unread : Unread c process) (counted : (c.pool process).jobs.length = (c.jobs process).length)
    (moved : c.step event = some d) (spares : Spares process event) : Unread d process := by
  intro reference task live metadata locations submitted
  rcases job_of_step moved submitted with old | ⟨_, opened⟩
  · rcases live_moves moved live with before | ⟨_, _, _, _, fresh, _⟩ | ⟨earlier, _, _, before, _⟩
    · exact unread reference task before metadata locations old
    · have inside := (List.getElem?_eq_some_iff.mp old).1
      rw [fresh, counted] at inside
      exact lt_irrefl _ inside
    · exact unread reference earlier before metadata locations old
  · obtain ⟨_, _, opens⟩ := opened.opens
    generalize d.shared = after at opens
    cases opens <;> exact spares rfl

section Run

variable {config : ι → TierConfig} {db : Database} {segments : ℕ → List UInt8}
  {files : OffloadKey → Option (List UInt8)} {memory : ι → List UInt8} {events later : List (ClusterEvent ι)}

theorem counted_of_run (run : Run (Steps Cluster.step) (.init config db segments files memory) events c) (process : ι) :
    (c.pool process).jobs.length = (c.jobs process).length := by
  rw [length_jobs_of_run (poolRun run process)]
  refine run.preserves (fun c => (submissions (c.events process)).length = (c.jobs process).length) rfl ?_
  intro source event target _ same moved
  rcases step_pool moved process with ⟨_, events, jobs⟩ |
    ⟨operation, _, events, ⟨silent, jobs⟩ | ⟨metadata, job, shared, opens, jobs⟩⟩
  · rw [events, jobs, same]
  · rw [events, jobs, submissions_snoc, silent, Option.toList_none, List.append_nil, same]
  · rw [events, jobs, submissions_snoc, opens.announces.2, List.length_append, List.length_append, same]
    rfl

theorem framed_of_run (run : Run (Steps Cluster.step) (.init config db segments files memory) events c) :
    Framed (fun process => (memory process).length) c := by
  refine run.invariant (fun _ c => Framed (fun process => (memory process).length) c)
    ⟨fun _ => rfl, fun _ => rfl, ?_⟩ ?_
  · intro process reference task live
    rcases live with queued | ⟨worker, member, running⟩
    · simp [Cluster.init, Pool.init] at queued
    · rw [workers_init _ _ member] at running
      cases running
  · intro past source event target before framed moved
    exact framed.step (counted_of_run (before.snoc moved)) moved

/-- Each change has its cause. -/
theorem touched_of_run (run : Run (Steps Cluster.step) (.init config db segments files memory) events c)
    (continued : Run (Steps Cluster.step) c later d) {position : ℕ}
    (changed : (d.memory process)[position]? ≠ (c.memory process)[position]?) :
    ∃ before event after source target, later = before ++ event :: after ∧ Run (Steps Cluster.step) c before source ∧
      source.step event = some target ∧ Touches source event process position := by
  induction continued with
  | nil => exact absurd rfl changed
  | @snoc past source target event reached moved ih =>
    by_cases earlier : (source.memory process)[position]? = (c.memory process)[position]?
    · rw [← earlier] at changed
      exact ⟨past, event, [], source, target, rfl, reached, moved,
        (framed_of_run (run.append reached)).touches moved changed⟩
    · obtain ⟨before, cause, after, first, second, rfl, rest⟩ := ih earlier
      exact ⟨before, cause, after ++ [event], first, second, by simp, rest⟩

theorem unread_of_run (run : Run (Steps Cluster.step) (.init config db segments files memory) events c)
    (quiescent : (c.pool process).Quiescent) (continued : Run (Steps Cluster.step) c later d)
    (spares : ∀ event ∈ later, Spares process event) : Unread d process := by
  obtain ⟨loads, stores, waiting⟩ := quiescent
  induction continued with
  | nil =>
    intro reference task live
    rcases live with queued | ⟨worker, member, running⟩
    · simp [loads, stores] at queued
    · rcases waiting worker member with state | state <;> simp [state] at running
  | @snoc past source target event reached moved ih =>
    have unread := ih fun event member => spares event (List.mem_append_left _ member)
    exact unread.step (counted_of_run (run.append reached) process) moved (spares event (by simp))

/-- Whenever a byte of a primary tier changes, someone else writes to it or a worker runs a task of a load of its
process that names its block, whichever calls fail and however short the files are. From a state in which the pool of
the process is drained, nothing of its primary tier changes until it submits a load or someone else writes. -/
theorem memory_accounted (run : Run (Steps Cluster.step) (.init config db segments files memory) events c)
    (continued : Run (Steps Cluster.step) c later d) (process : ι) :
    (∀ position, (d.memory process)[position]? ≠ (c.memory process)[position]? →
      ∃ before event after source target, later = before ++ event :: after ∧ Run (Steps Cluster.step) c before source ∧
        source.step event = some target ∧ Touches source event process position) ∧
    ((c.pool process).Quiescent → (∀ event ∈ later, Spares process event) → d.memory process = c.memory process) := by
  refine ⟨fun position => touched_of_run run continued, fun quiescent spares => ?_⟩
  apply List.ext_getElem?
  intro position
  by_contra changed
  obtain ⟨before, event, after, source, target, rfl, reached, moved, written | read⟩ :=
    touched_of_run run continued changed
  · obtain ⟨start, data, rfl, _⟩ := written
    exact spares (.primaryWrite process start data) (by simp) rfl
  · obtain ⟨reference, metadata, locations, blockId, submitted, works, _⟩ := read
    have unread := unread_of_run run quiescent reached fun event member => spares event (List.mem_append_left _ member)
    cases event with
    | worker acting index action outcome =>
      obtain ⟨rfl, worker, task, found, running⟩ := works
      exact unread reference task (.inr ⟨worker, List.mem_of_getElem? found, running⟩) metadata locations submitted
    | _ => exact works

/-- While the other process loads, the primary tier of the one that has stored stays as it is. -/
theorem memory_accounted_shared : ∃ c d : Cluster Bool, Run (Steps Cluster.step) alikeStart (sharedTape.take 8) c ∧
    Run (Steps Cluster.step) c (sharedTape.drop 8) d ∧ d.memory false = c.memory false ∧
    ∃ before event after source target, sharedTape.drop 8 = before ++ event :: after ∧
      Run (Steps Cluster.step) c before source ∧ source.step event = some target ∧ Touches source event true 0 := by
  have executed : (replay Cluster.step alikeStart (sharedTape.take 8)).map (fun c =>
      (decide (c.pool false).Quiescent, (c.memory true)[0]?,
        (replay Cluster.step c (sharedTape.drop 8)).map fun d => (d.memory true)[0]?)) =
      some (true, some 0, some (some 8)) := by decide +kernel
  obtain ⟨c, stored, facts⟩ := Option.map_eq_some_iff.mp executed
  simp only [Prod.mk.injEq, decide_eq_true_eq] at facts
  obtain ⟨quiescent, before, loaded⟩ := facts
  obtain ⟨d, continued, after⟩ := Option.map_eq_some_iff.mp loaded
  have run : Run (Steps Cluster.step) alikeStart (sharedTape.take 8) c := Run.of_replay stored
  have later : Run (Steps Cluster.step) c (sharedTape.drop 8) d := Run.of_replay continued
  refine ⟨c, d, run, later, (memory_accounted run later false).2 quiescent ?_, (memory_accounted run later true).1 0 ?_⟩
  · intro event member
    simp only [sharedTape, List.drop_succ_cons, List.drop_zero, List.mem_cons, List.not_mem_nil, or_false] at member
    rcases member with rfl | rfl | rfl | rfl | rfl | rfl <;> simp [Spares]
  · rw [before, after]
    decide

end Run

end Cluster

end KVTiering.Soundness
