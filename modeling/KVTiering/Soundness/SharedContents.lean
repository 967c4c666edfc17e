import KVTiering.Machine.Simulation
import KVTiering.Machine.WriteOnce
import KVTiering.Soundness.Integrity

/-! # The segment layout as a shared map

Seen from outside, the processes on a root directory share a map from keys to blocks. A store job publishes its
blocks in one step, when its callback commits; a deletion removes entries; nothing else changes the map. What a
process offers or loads has been in the map.
-/

namespace KVTiering.Soundness.Cluster

open Model ThreadPool SharedStore

variable {ι : Type}

/-- The block that the row of a key names. -/
def contents (c : Cluster ι) (key : OffloadKey) : Option (List UInt8) :=
  (c.shared.db.blocks.get? key).map fun location =>
    readAt (c.segments location.segmentId) location.offset location.length

/-- The blocks that a store job read from the primary tier. -/
def blocksOf (blockSize : ℕ) (plan : SegmentStorePlan) (source : List UInt8) : List (OffloadKey × List UInt8) :=
  plan.entries.map fun entry => (entry.key, readAt source (entry.blockId * blockSize) blockSize)

/-- A callback publishes what its job has stored, if it was called with success and its transaction commits. -/
def published (blockSize : ℕ) (c : Cluster ι) (process : ι) (job : ℕ) : List (MapEvent OffloadKey (List UInt8)) :=
  match (c.jobs process)[job]? with
  | some (.store _ plan source) => [.publish (blocksOf blockSize plan source)]
  | _ => []

/-- What a step of a worker does to the map. -/
def workerEvents (blockSize : ℕ) (c : Cluster ι) (process : ι) :
    StepOutcome → WorkerState Task → WorkerAction Task → List (MapEvent OffloadKey (List UInt8))
  | .completed, .unwinding ⟨_, .delete keys⟩ _, .taskEnded _ _ => [.remove keys]
  | .completed, .inCallback job true, .returned _ true => published blockSize c process job
  | .committed _, .inCallback job true, .returned _ false => published blockSize c process job
  | _, _, _ => []

/-- What an event does to the map. -/
def mapEvents (blockSize : ℕ) (c : Cluster ι) : ClusterEvent ι → List (MapEvent OffloadKey (List UInt8))
  | .delete _ keys => [.remove keys]
  | .worker process index action outcome =>
    match (c.pool process).workers[index]? with
    | some worker => workerEvents blockSize c process outcome worker.state action
    | none => []
  | _ => []

def processOf : ClusterEvent ι → ι
  | .submitStore process _ | .submitLoad process _ | .lookUp process _ | .delete process _ | .unlink process _
  | .shutdown process | .getFinished process _ _ | .primaryWrite process _ _ | .worker process _ _ _ => process

/-! ## What a step does to the rows -/

/-- The rows after a step, for the events that it stands for. -/
inductive RowsAfter (blockSize : ℕ) (c : Cluster ι) (blocks : Dict OffloadKey SegmentLocation) :
    List (MapEvent OffloadKey (List UInt8)) → Prop
  | same (rows : blocks = c.shared.db.blocks) : RowsAfter blockSize c blocks []
  | removed {keys : List OffloadKey}
      (rows : ∀ key, blocks.get? key = if key ∈ keys then none else c.shared.db.blocks.get? key) :
      RowsAfter blockSize c blocks [.remove keys]
  | indexed {process : ι} {reference : ℕ} {metadata : JobMetadata} {plan : SegmentStorePlan} {source : List UInt8}
      (submitted : (c.jobs process)[reference]? = some (.store metadata plan source))
      (holds : ∀ entry ∈ plan.entries,
        Holds (c.segments entry.segmentId) entry.offset (readAt source (entry.blockId * blockSize) blockSize))
      (rows : ∀ key, blocks.get? key = (c.shared.db.indexPlan blockSize plan).blocks.get? key) :
      RowsAfter blockSize c blocks [.publish (blocksOf blockSize plan source)]

variable [DecidableEq ι] {config : ι → TierConfig} {blockSize : ℕ} {size : ι → ℕ} {c d : Cluster ι}
  {event : ClusterEvent ι} {process : ι}

theorem rowsAfter_delete {keys : List OffloadKey} {shared : SharedStore ι}
    (deleted : c.shared.step (.delete process keys) = some shared) :
    RowsAfter blockSize c shared.db.blocks [.remove keys] := by
  cases deleted
  exact .removed (SegmentStore.delete_blocks (c.shared.store process) c.shared.db keys)

theorem blocks_of_made {call : IoCall} (made : Made c process call d) :
    d.shared.db.blocks = c.shared.db.blocks := by rw [shared_of_made made]

theorem blocks_of_prepared {store store' : SegmentStore} {db db' : Database} {keys : List OffloadKey}
    {blockIds : List ℕ} {plan : SegmentStorePlan}
    (prepared : store.prepareStore db keys blockIds = .ok (plan, db', store')) : db'.blocks = db.blocks := by
  obtain ⟨_, ⟨_, rfl⟩ | ⟨unique, reserved⟩⟩ := prepareStore_cases prepared
  · rfl
  · rw [(Prod.mk.inj reserved).2]

/-- The rows after a plan was indexed. -/
theorem get?_of_indexing {before after : SharedStore ι} {operation : StoreEvent ι} {plan : SegmentStorePlan}
    (moved : before.step operation = some after)
    (indexing : operation = .completeStore process plan true ∨ ∃ read, operation = .completeRaised process plan read)
    (key : OffloadKey) : after.db.blocks.get? key =
      (before.db.indexPlan (before.store process).config.blockSize plan).blocks.get? key := by
  rcases indexing with rfl | ⟨read, rfl⟩
  · cases SharedStore.moves_of_step moved with
    | completeNothing _ nothing =>
      have empty : plan.entries = [] := by simpa using nothing
      rw [Database.get?_indexPlan, empty, List.find?_nil, Option.map_none, Option.or_none]
      rfl
    | completeStore => rfl
  · cases SharedStore.moves_of_step moved
    rfl

omit [DecidableEq ι] in
theorem readAt_genuine {key : OffloadKey} {location : SegmentLocation} {data : List UInt8}
    (genuine : Genuine blockSize c key location data) :
    readAt (c.segments location.segmentId) location.offset location.length = data := by
  have length := genuine.length
  obtain ⟨_, _, _, _, _, _, backed⟩ := genuine
  rw [length, ← backed.whole]
  exact readAt_of_holds backed.holds

namespace Stepping

/-- The callback of a job that returns after its transaction, or raises after it. -/
theorem rowsAfter_indexed (s : Stepping config blockSize size c event d) {worker : Worker Task} {job : ℕ}
    {plan : SegmentStorePlan} (member : worker ∈ (c.pool process).workers)
    (calling : worker.state = .inCallback job true)
    (callback : ((c.pool process).jobState job).onComplete = some plan) {blocks : Dict OffloadKey SegmentLocation}
    (rows : ∀ key, blocks.get? key =
      (c.shared.db.indexPlan (c.shared.store process).config.blockSize plan).blocks.get? key) :
    RowsAfter blockSize c blocks (published blockSize c process job) := by
  obtain ⟨metadata, source, submitted, _, holds⟩ := s.indexed member calling callback
  rw [s.inv.arguments, s.segmented.same] at rows
  simp only [published, submitted]
  exact .indexed submitted holds rows

theorem rowsAfter_effect (s : Stepping config blockSize size c event d) {worker : Worker Task}
    (member : worker ∈ (c.pool process).workers) {outcome : StepOutcome} {action : WorkerAction Task}
    {middle : Cluster ι} (effect : c.effect process outcome worker.state action = some middle) :
    RowsAfter blockSize c middle.shared.db.blocks (workerEvents blockSize c process outcome worker.state action) := by
  generalize standing : worker.state = source at effect
  unfold Cluster.effect at effect
  split at effect
  case h_1 =>
    -- a system call changes no row
    split at effect
    · split at effect
      · exact .same (blocks_of_made (.inl effect))
      · cases effect
    · cases effect
  case h_2 =>
    split at effect
    · next transferred _ =>
      cases effect
      exact .same (blocks_of_made (.inr ⟨transferred, rfl⟩))
    · cases effect
  case h_3 =>
    split at effect
    · cases effect
      cases outcome <;> exact .same rfl
    · cases effect
  case h_4 task job reference success =>
    obtain ⟨calls, handler⟩ := task
    cases outcome with
    | completed =>
      cases handler with
      | delete keys =>
        obtain ⟨_, shared, deleted, rfl⟩ := storeStep_cases effect
        exact rowsAfter_delete deleted
      | reraise | remove =>
        cases effect
        exact .same rfl
    | failed | committed =>
      cases effect
      exact .same rfl
  case h_5 job success reference ok =>
    split at effect
    · cases effect
    · next plan callback =>
      cases outcome with
      | completed =>
        cases ok with
        | false => cases effect
        | true =>
          obtain ⟨_, shared, completed, rfl⟩ := storeStep_cases effect
          cases success with
          | false =>
            cases moves_of_step completed
            exact .same rfl
          | true =>
            exact s.rowsAfter_indexed member standing callback (get?_of_indexing completed (.inl rfl))
      | failed =>
        cases ok with
        | false =>
          cases effect
          cases success <;> exact .same rfl
        | true => cases effect
      | committed read =>
        cases ok with
        | true => cases effect
        | false =>
          simp only [Cluster.complete] at effect
          split at effect
          · next indexes =>
            obtain ⟨rfl, _⟩ := indexes
            obtain ⟨_, shared, committed, rfl⟩ := storeStep_cases effect
            exact s.rowsAfter_indexed member standing callback (get?_of_indexing committed (.inr ⟨read, rfl⟩))
          · cases effect
  case h_6 notWork notRaise notEnded notHandled notReturned =>
    cases effect
    unfold workerEvents
    split
    · exact absurd rfl (notHandled _ _ _ _ rfl)
    · exact absurd rfl (notReturned _ _ _ _ rfl)
    · exact absurd rfl (notReturned _ _ _ _ rfl)
    · exact .same rfl

/-- A step other than a deletion or one of a worker leaves the rows alone. -/
theorem blocks_of_quiet (s : Stepping config blockSize size c event d)
    (quiet : ∀ process, (∀ keys, event ≠ .delete process keys) ∧
      ∀ index action outcome, event ≠ .worker process index action outcome) :
    d.shared.db.blocks = c.shared.db.blocks := by
  cases step_moves s.moved with
  | opened opens =>
    dsimp only
    cases opens with
    | storeSegments _ prepared => exact blocks_of_prepared prepared
    | loadSegments _ _ looked =>
      cases looked
      rfl
    | storeFiles | loadFiles => rfl
  | stored made stepped =>
    rcases made with ⟨_, _, rfl, rfl⟩ | ⟨process, keys, same, _⟩
    · cases stepped
      rfl
    · exact absurd same ((quiet process).1 keys)
  | unlinked | polled | overwritten => rfl
  | worked => exact absurd rfl ((quiet _).2 _ _ _)

theorem rowsAfter (s : Stepping config blockSize size c event d) :
    RowsAfter blockSize c d.shared.db.blocks (mapEvents blockSize c event) := by
  have stepped := s.moved
  cases event with
  | delete process keys =>
    obtain ⟨_, shared, deleted, rfl⟩ := storeStep_cases stepped
    exact rowsAfter_delete deleted
  | worker process index action outcome =>
    obtain ⟨worker, found, rest⟩ := Option.bind_eq_some_iff.mp stepped
    obtain ⟨middle, effect, polled⟩ := Option.bind_eq_some_iff.mp rest
    obtain ⟨pool, moved, rfl⟩ := poolStep_cases polled
    simp only [mapEvents, found]
    exact s.rowsAfter_effect (List.mem_of_getElem? found) effect
  | _ => exact .same (s.blocks_of_quiet (by simp))

/-! ## What a step does to the map -/

/-- The row of a key that has had one before the step still names the same block. -/
theorem readAt_kept (s : Stepping config blockSize size c event d) {key : OffloadKey} {location : SegmentLocation}
    (row : c.shared.db.blocks.get? key = some location) :
    readAt (d.segments location.segmentId) location.offset location.length =
      readAt (c.segments location.segmentId) location.offset location.length := by
  obtain ⟨data, genuine⟩ := s.inv.known (processOf event) key location (.inr row)
  rw [readAt_genuine genuine, readAt_genuine (s.genuine genuine)]

theorem contents (s : Stepping config blockSize size c event d) :
    contents d = MapEvent.applyAll (contents c) (mapEvents blockSize c event) := by
  have kept : ∀ key, (c.shared.db.blocks.get? key).map (fun location =>
      readAt (d.segments location.segmentId) location.offset location.length) = Cluster.contents c key := by
    intro key
    rw [Cluster.contents]
    exact Option.map_congr fun location row => s.readAt_kept row
  funext key
  generalize mapped : mapEvents blockSize c event = events
  have rows := s.rowsAfter
  rw [mapped] at rows
  cases rows with
  | same rows => rw [MapEvent.applyAll_nil, ← kept, ← rows, Cluster.contents]
  | @removed keys rows =>
    rw [MapEvent.applyAll_cons, MapEvent.applyAll_nil, MapEvent.apply, ← kept, Cluster.contents, rows]
    split <;> rfl
  | @indexed process reference metadata plan source submitted holds rows =>
    rw [MapEvent.applyAll_cons, MapEvent.applyAll_nil, MapEvent.apply, ← kept, Cluster.contents, rows,
      Database.get?_indexPlan, Option.map_or, Option.map_map, blocksOf, List.find?_map, Option.map_map]
    congr 1
    apply Option.map_congr
    intro entry found
    have planned := List.mem_of_find?_eq_some found
    have held := readAt_of_holds (s.holds submitted planned (holds entry planned))
    rwa [s.inv.length_source submitted planned] at held

end Stepping

/-! ## Runs -/

section Run

variable {segments : ℕ → List UInt8} {files : OffloadKey → Option (List UInt8)} {memory : ι → List UInt8}
  {events later : List (ClusterEvent ι)}

/-- At some point of the run the key had a row with this position. -/
def Had (blockSize : ℕ) (start : Cluster ι) (events : List (ClusterEvent ι)) (c : Cluster ι) (key : OffloadKey)
    (location : SegmentLocation) : Prop :=
  ∃ before after middle, events = before ++ after ∧ Run (Promised blockSize) start before middle ∧
    Run (Promised blockSize) middle after c ∧ middle.shared.db.blocks.get? key = some location

theorem Had.snoc {start : Cluster ι} {key : OffloadKey} {location : SegmentLocation}
    (had : Had blockSize start events c key location) (promised : Promised blockSize c event d) :
    Had blockSize start (events ++ [event]) d key location := by
  obtain ⟨before, after, middle, rfl, reached, left, row⟩ := had
  exact ⟨before, after ++ [event], middle, by rw [List.append_assoc], reached, left.snoc promised, row⟩

/-- What a process can offer, and what a load was given, has been a row. -/
structure Remembers (blockSize : ℕ) (start : Cluster ι) (events : List (ClusterEvent ι)) (c : Cluster ι) : Prop where
  known : ∀ process key location, Known c.shared process key location → Had blockSize start events c key location
  loads : ∀ (process : ι) (reference : ℕ) (metadata : JobMetadata) (locations : List (Option SegmentLocation)),
    (c.jobs process)[reference]? = some (.load metadata locations) → ∀ key blockId location,
    (key, blockId, some location) ∈ metadata.keys.zip (metadata.blockIds.zip locations) →
      Had blockSize start events c key location

theorem Remembers.step {start : Cluster ι} (remembers : Remembers blockSize start events c)
    (s : Stepping config blockSize size c event d) (reached : Run (Promised blockSize) start events c)
    (promised : Promised blockSize c event d) : Remembers blockSize start (events ++ [event]) d where
  known process key location known := by
    rcases tables_of_step s.moved with same | ⟨operation, moved, _⟩
    · rw [same] at known
      exact (remembers.known process key location known).snoc promised
    · rcases known_or_added moved known with earlier | ⟨acting, plan, _, indexing, row⟩
      · exact (remembers.known process key location earlier).snoc promised
      · refine ⟨events ++ [event], [], d, by rw [List.append_nil], reached.snoc promised, .nil, ?_⟩
        rw [get?_of_indexing moved indexing, row]
  loads process reference metadata locations submitted key blockId location inZip := by
    rcases job_of_step s.moved submitted with old | ⟨_, opened⟩
    · exact (remembers.loads process reference metadata locations old key blockId location inZip).snoc promised
    · have looked := (s.looked opened).2
      exact (remembers.known process key location (known_of_looked looked inZip)).snoc promised

end Run

end KVTiering.Soundness.Cluster
