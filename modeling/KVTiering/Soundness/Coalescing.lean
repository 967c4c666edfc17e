import KVTiering.Model.Cluster

/-! # What the tasks of a job transfer

The system calls of a task transfer runs of blocks. Spread out again, the calls of `writeEntries` place every
entry once, in order, and those of `loadMany` every location, whatever the bound on the buffers of a call is and
wherever the runs are cut.
-/

namespace KVTiering.Soundness

open Model

/-- A slice of the primary tier, and the place in the segments that it is written to or read from. -/
structure BlockTransfer where
  segmentId : ℕ
  offset : ℕ
  slice : Slice
deriving DecidableEq, Repr

/-- The buffers of a vectored call, each with the offset that it comes to. -/
def spread : ℕ → List Slice → List (ℕ × Slice)
  | _, [] => []
  | offset, slice :: rest => (offset, slice) :: spread (offset + slice.length) rest

def transferAt (segmentId : ℕ) (part : ℕ × Slice) : BlockTransfer := ⟨segmentId, part.1, part.2⟩

/-- The blocks that a call transfers. -/
def transfers : IoCall → List BlockTransfer
  | .pwritev segmentId offset buffers | .preadv segmentId offset buffers =>
    (spread offset buffers).map (transferAt segmentId)
  | _ => []

/-- The transfer of a block that is written. -/
def writeTransfer (io : IoConfig) (entry : SegmentWrite) : BlockTransfer :=
  ⟨entry.segmentId, entry.offset, blockSlice io.viewSize io.blockSize entry.blockId⟩

/-- The transfer of a block that is read. -/
def readTransfer (io : IoConfig) (location : SegmentLocation) (blockId : ℕ) : BlockTransfer :=
  ⟨location.segmentId, location.offset, blockSlice io.viewSize io.blockSize blockId⟩

theorem bufferBound_pos {iovMax : ℕ} {maxBuffers : Option ℕ} (iovMax_pos : 0 < iovMax)
    (maxBuffers_pos : ∀ bound ∈ maxBuffers, 0 < bound) : 0 < bufferBound iovMax maxBuffers := by
  cases maxBuffers with
  | none => exact iovMax_pos
  | some bound => exact lt_min iovMax_pos (maxBuffers_pos bound rfl)

/-! ## Runs of buffers -/

theorem spread_append (offset : ℕ) (first second : List Slice) :
    spread offset (first ++ second) = spread offset first ++ spread (offset + totalLength first) second := by
  induction first generalizing offset with
  | nil => simp [spread, totalLength]
  | cons slice rest ih =>
    rw [List.cons_append, spread, ih, spread, List.cons_append]
    simp only [totalLength, List.map_cons, List.sum_cons, Nat.add_assoc]

/-- Cutting a run into calls of a bounded number of buffers leaves each buffer at its offset. -/
theorem spread_vectored {io : IoConfig} (buffers : 0 < io.maxBuffers) (offset : ℕ) (views : List Slice) :
    ((vectored io offset views).flatMap fun part => spread part.1 part.2) = spread offset views := by
  have upTo : ∀ n, ((List.range n).map fun i =>
      (offset + ((views.take (i * io.maxBuffers)).map Slice.length).sum,
        (views.drop (i * io.maxBuffers)).take io.maxBuffers)).flatMap (fun part => spread part.1 part.2) =
      spread offset (views.take (n * io.maxBuffers)) := by
    intro n
    induction n with
    | zero => simp [spread]
    | succ n ih =>
      rw [List.range_succ, List.map_append, List.flatMap_append, ih, Nat.succ_mul, List.take_add, spread_append]
      simp [totalLength]
  rw [vectored, upTo, List.take_of_length_le]
  have whole := Nat.lt_div_mul_add (a := views.length + io.maxBuffers - 1) buffers
  omega

/-- No call of a run is made without buffers. -/
theorem ne_nil_of_mem_vectored {io : IoConfig} {offset : ℕ} {views : List Slice} {part : ℕ × List Slice}
    (member : part ∈ vectored io offset views) : part.2 ≠ [] := by
  obtain ⟨i, inRange, rfl⟩ := List.mem_map.mp member
  rw [List.mem_range] at inRange
  have positive : 0 < io.maxBuffers := by
    rcases Nat.eq_zero_or_pos io.maxBuffers with none | some
    · simp [none] at inRange
    · exact some
  have early : i * io.maxBuffers < views.length := by
    have whole := Nat.div_mul_le_self (views.length + io.maxBuffers - 1) io.maxBuffers
    have next := Nat.mul_le_mul_right io.maxBuffers (Nat.succ_le_of_lt inRange)
    rw [Nat.succ_mul] at next
    omega
  rw [ne_eq, ← List.length_eq_zero_iff, List.length_take, List.length_drop]
  omega

/-! ## The loops -/

/-- The run that is not flushed yet. -/
def pending (state : IoState) : List BlockTransfer := (spread state.offset state.views).map (transferAt state.segment)

/-- What the loop has covered. -/
def covered (state : IoState) : List BlockTransfer := state.calls.flatMap transfers ++ pending state

section Loop

variable {io : IoConfig} {call : ℕ → ℕ → List Slice → IoCall} {state : IoState}

theorem covered_flush (buffers : 0 < io.maxBuffers)
    (lists : ∀ segmentId offset views, transfers (call segmentId offset views) =
      (spread offset views).map (transferAt segmentId)) :
    (state.flush io call).calls.flatMap transfers = covered state := by
  rw [IoState.flush, covered, List.flatMap_append, pending, ← spread_vectored buffers, List.map_flatMap,
    List.flatMap_map]
  simp only [lists]

/-- The next buffer is covered, at its own place. -/
theorem covered_add (buffers : 0 < io.maxBuffers)
    (lists : ∀ segmentId offset views, transfers (call segmentId offset views) =
      (spread offset views).map (transferAt segmentId))
    (segment offset : ℕ) {expected : ℕ} (contiguous : expected = state.offset + totalLength state.views)
    (view : Slice) : covered (state.add io call segment offset expected view) =
      covered state ++ [⟨segment, offset, view⟩] := by
  dsimp only [IoState.add]
  split_ifs with cut flushed unflushed
  · change (state.flush io call).calls.flatMap transfers ++ [⟨segment, offset, view⟩] = _
    rw [covered_flush buffers lists]
  · exact absurd rfl flushed
  · simp [covered, pending, unflushed, spread, transferAt]
  · obtain ⟨rfl, rfl⟩ : segment = state.segment ∧ offset = expected := by simpa [unflushed] using cut
    simp [covered, pending, spread_append, contiguous, spread, transferAt]

theorem calls_flush {call' : IoCall} (member : call' ∈ (state.flush io call).calls) :
    call' ∈ state.calls ∨ ∃ segmentId offset views, views ≠ [] ∧ call' = call segmentId offset views := by
  rcases List.mem_append.mp member with old | new
  · exact .inl old
  · obtain ⟨part, listed, rfl⟩ := List.mem_map.mp new
    exact .inr ⟨_, _, _, ne_nil_of_mem_vectored listed, rfl⟩

theorem calls_add {segment offset expected : ℕ} {view : Slice} {call' : IoCall}
    (member : call' ∈ (state.add io call segment offset expected view).calls) :
    call' ∈ state.calls ∨ ∃ segmentId offset views, views ≠ [] ∧ call' = call segmentId offset views := by
  dsimp only [IoState.add] at member
  split_ifs at member
  · exact calls_flush member
  · exact calls_flush member
  · exact .inl member
  · exact .inl member

end Loop

/-! ## Writing -/

/-- The block lies in the view of the primary tier. -/
def Inside (io : IoConfig) (blockId : ℕ) : Prop := blockId * io.blockSize + io.blockSize ≤ io.viewSize

theorem blockSlice_of_inside {io : IoConfig} {blockId : ℕ} (inside : Inside io blockId) :
    blockSlice io.viewSize io.blockSize blockId = ⟨blockId * io.blockSize, io.blockSize⟩ := by
  rw [Inside] at inside
  simp only [blockSlice, sliceOf, Slice.mk.injEq]
  omega

theorem totalLength_of_forall {views : List Slice} {length : ℕ} (same : ∀ view ∈ views, view.length = length) :
    totalLength views = views.length * length := by
  induction views with
  | nil => simp [totalLength]
  | cons view rest ih =>
    have later := ih fun other member => same other (List.mem_cons_of_mem _ member)
    rw [totalLength] at later
    rw [totalLength, List.map_cons, List.sum_cons, later, same view (List.mem_cons_self ..), List.length_cons,
      Nat.succ_mul, Nat.add_comm]

section Write

variable {io : IoConfig} {entries : List SegmentWrite}

/-- The views of a run are whole blocks. -/
def Whole (io : IoConfig) (state : IoState) : Prop := ∀ view ∈ state.views, view.length = io.blockSize

theorem whole_write {state : IoState} {entry : SegmentWrite} (whole : Whole io state)
    (inside : Inside io entry.blockId) : Whole io (state.write io entry) := by
  have last : (blockSlice io.viewSize io.blockSize entry.blockId).length = io.blockSize := by
    rw [blockSlice_of_inside inside]
  intro view member
  dsimp only [IoState.write, IoState.add] at member
  split_ifs at member <;> rcases List.mem_append.mp member with old | new
  · simp [IoState.flush] at old
  · rw [List.mem_singleton.mp new, last]
  · simp [IoState.flush] at old
  · rw [List.mem_singleton.mp new, last]
  · exact whole view old
  · rw [List.mem_singleton.mp new, last]
  · exact whole view old
  · rw [List.mem_singleton.mp new, last]

theorem covered_writes (buffers : 0 < io.maxBuffers) (inside : ∀ entry ∈ entries, Inside io entry.blockId)
    {state : IoState} (whole : Whole io state) :
    covered (entries.foldl (IoState.write io) state) = covered state ++ entries.map (writeTransfer io) := by
  induction entries generalizing state with
  | nil => simp
  | cons entry rest ih =>
    have first := inside entry (List.mem_cons_self ..)
    rw [List.foldl_cons, ih (fun other member => inside other (List.mem_cons_of_mem _ member))
      (whole_write whole first), IoState.write, covered_add buffers (fun _ _ _ => rfl) _ _
      (by rw [totalLength_of_forall whole])]
    simp [writeTransfer]

/-- `write_entries` transfers every block to its own place, once and in order. -/
theorem transfers_writeEntries (buffers : 0 < io.maxBuffers) (inside : ∀ entry ∈ entries, Inside io entry.blockId) :
    (writeEntries io entries).calls.flatMap transfers = entries.map (writeTransfer io) := by
  cases entries with
  | nil => rfl
  | cons first rest =>
    dsimp only [writeEntries]
    rw [covered_flush buffers fun _ _ _ => rfl, covered_writes buffers inside (by simp [Whole])]
    simp [covered, pending, spread]

theorem calls_writeEntries {call : IoCall} (member : call ∈ (writeEntries io entries).calls) :
    ∃ segmentId offset views, call = .pwritev segmentId offset views := by
  cases entries with
  | nil => simp [writeEntries, Task.nothing] at member
  | cons first rest =>
    have loop : ∀ (entries : List SegmentWrite) (state : IoState),
        call ∈ (entries.foldl (IoState.write io) state).calls →
          call ∈ state.calls ∨ ∃ segmentId offset views, views ≠ [] ∧ call = .pwritev segmentId offset views := by
      intro entries
      induction entries with
      | nil => exact fun state old => .inl old
      | cons entry rest ih =>
        intro state later
        rcases ih _ later with old | new
        · exact calls_add old
        · exact .inr new
    have made : ∃ segmentId offset views, views ≠ [] ∧ call = .pwritev segmentId offset views := by
      rcases calls_flush member with old | new
      · exact (loop _ _ old).resolve_left (by simp)
      · exact new
    obtain ⟨segmentId, offset, views, _, same⟩ := made
    exact ⟨segmentId, offset, views, same⟩

end Write

/-! ## Reading -/

section Read

variable {io : IoConfig} {entries : List (SegmentLocation × Slice)}

theorem covered_loadEntries (buffers : 0 < io.maxBuffers)
    (whole : ∀ entry ∈ entries, entry.1.length = io.blockSize) (state : IoState) :
    (loadEntries io state entries).flatMap transfers =
      covered state ++ entries.map fun entry => ⟨entry.1.segmentId, entry.1.offset, entry.2⟩ := by
  induction entries generalizing state with
  | nil => rw [loadEntries, covered_flush buffers fun _ _ _ => rfl, List.map_nil, List.append_nil]
  | cons entry rest ih =>
    obtain ⟨location, destination⟩ := entry
    have length : location.length = io.blockSize := whole _ (List.mem_cons_self ..)
    have added : covered (state.add io .preadv location.segmentId location.offset
        (state.offset + totalLength state.views) destination) =
          covered state ++ [⟨location.segmentId, location.offset, destination⟩] :=
      covered_add buffers (fun _ _ _ => rfl) _ _ rfl _
    rw [loadEntries, if_neg (not_not.mpr length), ih fun other member => whole other (List.mem_cons_of_mem _ member)]
    rw [totalLength] at added
    rw [added, List.append_assoc, List.map_cons, List.singleton_append]

theorem calls_loadEntries (whole : ∀ entry ∈ entries, entry.1.length = io.blockSize) {state : IoState}
    {call : IoCall} (member : call ∈ loadEntries io state entries) :
    call ∈ state.calls ∨ ∃ segmentId offset views, views ≠ [] ∧ call = .preadv segmentId offset views := by
  induction entries generalizing state with
  | nil => exact calls_flush member
  | cons entry rest ih =>
    obtain ⟨location, destination⟩ := entry
    have length : location.length = io.blockSize := whole _ (List.mem_cons_self ..)
    rw [loadEntries, if_neg (not_not.mpr length)] at member
    rcases ih (fun other later => whole other (List.mem_cons_of_mem _ later)) member with old | new
    · exact calls_add old
    · exact .inr new

/-- `load_many` of keys with their locations. -/
def loadChunk (io : IoConfig) (chunk : List (OffloadKey × ℕ × SegmentLocation)) : Task :=
  loadMany io (chunk.map fun entry => entry.1) (chunk.map fun entry => entry.2.1)
    (chunk.map fun entry => some entry.2.2)

theorem loadChunk_eq (io : IoConfig) (chunk : List (OffloadKey × ℕ × SegmentLocation)) : loadChunk io chunk =
    ⟨loadEntries io ⟨[], 0, 0, []⟩ (sortedBy (fun entry => toLex (entry.1.segmentId, entry.1.offset))
      (chunk.map fun entry => (entry.2.2, blockSlice io.viewSize io.blockSize entry.2.1))),
      .delete (chunk.map fun entry => entry.1)⟩ := by
  have located : (chunk.map fun entry => some entry.2.2).filter Option.isNone = [] := by
    apply List.filter_eq_nil_iff.mpr
    intro location member
    obtain ⟨entry, _, rfl⟩ := List.mem_map.mp member
    simp
  have entries : ((chunk.map fun entry => some entry.2.2).zip (chunk.map fun entry => entry.2.1)).filterMap
      (fun item => item.1.map fun location => (location, blockSlice io.viewSize io.blockSize item.2)) =
        chunk.map fun entry => (entry.2.2, blockSlice io.viewSize io.blockSize entry.2.1) := by
    rw [List.zip_map', List.filterMap_map, ← List.filterMap_eq_map]
    rfl
  rw [loadChunk, loadMany, if_neg (by simp), if_neg (by simp)]
  simp only [located, ne_eq, not_true, if_false, entries]

variable {chunk : List (OffloadKey × ℕ × SegmentLocation)}

/-- `load_many` transfers every location to its own block. -/
theorem mem_transfers_loadChunk (buffers : 0 < io.maxBuffers)
    (whole : ∀ entry ∈ chunk, entry.2.2.length = io.blockSize) {transfer : BlockTransfer} :
    transfer ∈ (loadChunk io chunk).calls.flatMap transfers ↔
      ∃ entry ∈ chunk, transfer = readTransfer io entry.2.2 entry.2.1 := by
  have wholeSorted : ∀ entry ∈ sortedBy (fun entry : SegmentLocation × Slice =>
      toLex (entry.1.segmentId, entry.1.offset))
        (chunk.map fun entry => (entry.2.2, blockSlice io.viewSize io.blockSize entry.2.1)),
      entry.1.length = io.blockSize := by
    intro entry member
    obtain ⟨source, inChunk, rfl⟩ := List.mem_map.mp (mem_sortedBy.mp member)
    exact whole source inChunk
  rw [loadChunk_eq, covered_loadEntries buffers wholeSorted]
  simp only [covered, pending, spread, List.flatMap_nil, List.map_nil, List.nil_append, List.mem_map, mem_sortedBy,
    readTransfer]
  constructor
  · rintro ⟨_, ⟨entry, member, rfl⟩, rfl⟩
    exact ⟨entry, member, rfl⟩
  · rintro ⟨entry, member, rfl⟩
    exact ⟨_, ⟨entry, member, rfl⟩, rfl⟩

theorem calls_loadChunk (whole : ∀ entry ∈ chunk, entry.2.2.length = io.blockSize) {call : IoCall}
    (member : call ∈ (loadChunk io chunk).calls) : ∃ segmentId offset views, call = .preadv segmentId offset views := by
  have wholeSorted : ∀ entry ∈ sortedBy (fun entry : SegmentLocation × Slice =>
      toLex (entry.1.segmentId, entry.1.offset))
        (chunk.map fun entry => (entry.2.2, blockSlice io.viewSize io.blockSize entry.2.1)),
      entry.1.length = io.blockSize := by
    intro entry sorted
    obtain ⟨source, inChunk, rfl⟩ := List.mem_map.mp (mem_sortedBy.mp sorted)
    exact whole source inChunk
  rw [loadChunk_eq] at member
  rcases calls_loadEntries wholeSorted member with old | ⟨segmentId, offset, views, _, same⟩
  · cases old
  · exact ⟨segmentId, offset, views, same⟩

end Read

/-! ## The tasks of a job -/

/-- The groups hold each entry once. -/
theorem perm_groupWrites (entries : List SegmentWrite) : (groupWrites entries).flatten.Perm entries :=
  Dict.perm_groupOn ..

section Tasks

variable {io : IoConfig}

theorem mem_segmentStoreTasks {plan : SegmentStorePlan} {task : Task} (member : task ∈ segmentStoreTasks io plan) :
    task = .nothing ∨ ∃ group ∈ groupWrites plan.entries, task = writeEntries io group := by
  dsimp only [segmentStoreTasks] at member
  split at member
  · exact .inl (List.mem_singleton.mp member)
  · obtain ⟨group, listed, rfl⟩ := List.mem_map.mp member
    exact .inr ⟨group, listed, rfl⟩

theorem mem_segmentStoreTasks_of_group {plan : SegmentStorePlan} {group : List SegmentWrite}
    (member : group ∈ groupWrites plan.entries) : writeEntries io group ∈ segmentStoreTasks io plan := by
  have listed : writeEntries io group ∈ (groupWrites plan.entries).map (writeEntries io) := List.mem_map_of_mem member
  dsimp only [segmentStoreTasks]
  rwa [if_neg (List.ne_nil_of_mem listed)]

theorem calls_segmentStoreTasks {plan : SegmentStorePlan} {task : Task} (member : task ∈ segmentStoreTasks io plan)
    {call : IoCall} (listed : call ∈ task.calls) :
    ∃ segmentId offset views, call = .pwritev segmentId offset views := by
  rcases mem_segmentStoreTasks member with rfl | ⟨group, _, rfl⟩
  · simp [Task.nothing] at listed
  · exact calls_writeEntries listed

/-- The tasks of a store write the entries of its plan and nothing else. -/
theorem mem_transfers_store (buffers : 0 < io.maxBuffers) {plan : SegmentStorePlan}
    (inside : ∀ entry ∈ plan.entries, Inside io entry.blockId) {transfer : BlockTransfer} :
    (∃ task ∈ segmentStoreTasks io plan, transfer ∈ task.calls.flatMap transfers) ↔
      ∃ entry ∈ plan.entries, transfer = writeTransfer io entry := by
  have perm := perm_groupWrites plan.entries
  have insideGroup : ∀ group ∈ groupWrites plan.entries, ∀ entry ∈ group, Inside io entry.blockId :=
    fun group listed entry member => inside entry (perm.mem_iff.mp (List.mem_flatten.mpr ⟨group, listed, member⟩))
  constructor
  · rintro ⟨task, member, placed⟩
    rcases mem_segmentStoreTasks member with rfl | ⟨group, listed, rfl⟩
    · simp [Task.nothing] at placed
    · rw [transfers_writeEntries buffers (insideGroup group listed)] at placed
      obtain ⟨entry, inGroup, rfl⟩ := List.mem_map.mp placed
      exact ⟨entry, perm.mem_iff.mp (List.mem_flatten.mpr ⟨group, listed, inGroup⟩), rfl⟩
  · rintro ⟨entry, member, rfl⟩
    obtain ⟨group, listed, inGroup⟩ := List.mem_flatten.mp (perm.mem_iff.mpr member)
    refine ⟨_, mem_segmentStoreTasks_of_group listed, ?_⟩
    rw [transfers_writeEntries buffers (insideGroup group listed)]
    exact List.mem_map_of_mem inGroup

section Load

variable {keys : List OffloadKey} {blockIds : List ℕ} {locations : List (Option SegmentLocation)}

theorem mem_segmentEntries {key : OffloadKey} {blockId : ℕ} {location : SegmentLocation} :
    (∃ chunk ∈ (segmentEntries keys blockIds locations).values, (key, blockId, location) ∈ chunk) ↔
      (key, blockId, some location) ∈ keys.zip (blockIds.zip locations) := by
  rw [← List.mem_flatten, segmentEntries, (Dict.perm_groupOn _ _).mem_iff, List.mem_filterMap]
  constructor
  · rintro ⟨⟨key', blockId', found⟩, member, same⟩
    obtain ⟨location', rfl, same⟩ := Option.map_eq_some_iff.mp same
    cases same
    exact member
  · intro member
    exact ⟨_, member, rfl⟩

theorem mem_segmentLoadTasks {task : Task} : task ∈ segmentLoadTasks io keys blockIds locations ↔
    (∃ key blockId, (key, blockId, none) ∈ keys.zip (blockIds.zip locations) ∧ task = loadBlock io key blockId) ∨
      ∃ chunk ∈ (segmentEntries keys blockIds locations).values, task = loadChunk io chunk := by
  rw [segmentLoadTasks, List.mem_append, List.mem_map, List.mem_map]
  constructor
  · rintro (⟨⟨key, blockId, location⟩, member, rfl⟩ | ⟨chunk, member, rfl⟩)
    · obtain ⟨inZip, unlocated⟩ := List.mem_filter.mp member
      obtain rfl := Option.isNone_iff_eq_none.mp unlocated
      exact .inl ⟨key, blockId, inZip, rfl⟩
    · exact .inr ⟨chunk, member, rfl⟩
  · rintro (⟨key, blockId, member, rfl⟩ | ⟨chunk, member, rfl⟩)
    · exact .inl ⟨(key, blockId, none), List.mem_filter.mpr ⟨member, rfl⟩, rfl⟩
    · exact .inr ⟨chunk, member, rfl⟩

/-- Every location that is looked up has the length of a block. -/
def WholeBlocks (io : IoConfig) (keys : List OffloadKey) (blockIds : List ℕ)
    (locations : List (Option SegmentLocation)) : Prop :=
  ∀ key blockId location, (key, blockId, some location) ∈ keys.zip (blockIds.zip locations) →
    location.length = io.blockSize

theorem WholeBlocks.chunk (whole : WholeBlocks io keys blockIds locations)
    {chunk : List (OffloadKey × ℕ × SegmentLocation)}
    (listed : chunk ∈ (segmentEntries keys blockIds locations).values) :
    ∀ entry ∈ chunk, entry.2.2.length = io.blockSize := by
  rintro ⟨key, blockId, location⟩ member
  exact whole key blockId location (mem_segmentEntries.mp ⟨chunk, listed, member⟩)

/-- The calls of a load read segments or the block files of the keys without a location. -/
theorem calls_segmentLoadTasks (whole : WholeBlocks io keys blockIds locations) {task : Task}
    (member : task ∈ segmentLoadTasks io keys blockIds locations) {call : IoCall} (listed : call ∈ task.calls) :
    (∃ segmentId offset views, call = .preadv segmentId offset views) ∨
      ∃ key blockId, (key, blockId, none) ∈ keys.zip (blockIds.zip locations) ∧
        call = .readv key (blockSlice io.viewSize io.blockSize blockId) io.blockSize := by
  rcases mem_segmentLoadTasks.mp member with ⟨key, blockId, unlocated, rfl⟩ | ⟨chunk, inValues, rfl⟩
  · exact .inr ⟨key, blockId, unlocated, List.mem_singleton.mp listed⟩
  · exact .inl (calls_loadChunk (whole.chunk inValues) listed)

/-- The tasks of a load read the locations of its keys, each into its own block, and nothing else from a
segment. -/
theorem mem_transfers_load (buffers : 0 < io.maxBuffers) (whole : WholeBlocks io keys blockIds locations)
    {transfer : BlockTransfer} :
    (∃ task ∈ segmentLoadTasks io keys blockIds locations, transfer ∈ task.calls.flatMap transfers) ↔
      ∃ key blockId location, (key, blockId, some location) ∈ keys.zip (blockIds.zip locations) ∧
        transfer = readTransfer io location blockId := by
  constructor
  · rintro ⟨task, member, placed⟩
    rcases mem_segmentLoadTasks.mp member with ⟨key, blockId, _, rfl⟩ | ⟨chunk, listed, rfl⟩
    · simp [loadBlock, transfers] at placed
    · obtain ⟨⟨key, blockId, location⟩, inChunk, rfl⟩ :=
        (mem_transfers_loadChunk buffers (whole.chunk listed)).mp placed
      exact ⟨key, blockId, location, mem_segmentEntries.mp ⟨chunk, listed, inChunk⟩, rfl⟩
  · rintro ⟨key, blockId, location, member, rfl⟩
    obtain ⟨chunk, listed, inChunk⟩ := mem_segmentEntries.mpr member
    exact ⟨_, mem_segmentLoadTasks.mpr (.inr ⟨chunk, listed, rfl⟩),
      (mem_transfers_loadChunk buffers (whole.chunk listed)).mpr ⟨_, inChunk, rfl⟩⟩

end Load

end Tasks

end KVTiering.Soundness
