import KVTiering.Soundness.VectoredIo

/-! # Coalesced reading is plain reading

`load_many` sorts its entries, merges them into runs and cuts the runs into calls; it returns exactly if every
location could have been read alone, and then every block holds what its own location does. A vectored read is its
buffers filled one after another, so the calls amount to one plain read for each location, in some order; and
plain reads into different blocks do not disturb each other.
-/

namespace KVTiering.Soundness

open Model

/-- A system call of `load_many`, on segment files some of which may be missing; `none` if it raises. -/
def readCall (segments : ℕ → Option (List UInt8)) (memory : List UInt8) : IoCall → Option (List UInt8)
  | .preadv segmentId offset buffers =>
    (segments segmentId).bind fun file =>
      let data := readAt file offset (totalLength buffers)
      if data.length = totalLength buffers then some (scatter memory buffers data) else none
  | .raise _ => none
  | _ => some memory

/-- The workers of the cluster make their calls so, when the file is there. -/
theorem readCall_of_perform {ι : Type} [DecidableEq ι] (c : Cluster ι) (process : ι) (segmentId offset : ℕ)
    (buffers : List Slice) :
    (c.perform process (.preadv segmentId offset buffers)).map (fun c => c.memory process) =
      readCall (fun segmentId => some (c.segments segmentId)) (c.memory process)
        (.preadv segmentId offset buffers) := by
  simp only [Cluster.perform, readCall, Option.bind_some]
  split
  · simp [Cluster.setMemory]
  · rfl

/-! ## A call is its blocks -/

/-- What a plain read of one block's extent returns; `none` if it raises. -/
def sourceOf (segments : ℕ → Option (List UInt8)) (transfer : BlockTransfer) : Option (List UInt8) :=
  (segments transfer.segmentId).bind fun file =>
    let data := readAt file transfer.offset transfer.slice.length
    if data.length = transfer.slice.length then some data else none

/-- A block read alone. -/
def readTransferred (segments : ℕ → Option (List UInt8)) (memory : List UInt8) (transfer : BlockTransfer) :
    Option (List UInt8) := (sourceOf segments transfer).map (writeAt memory transfer.slice.start)

theorem sourceOf_of_file {segments : ℕ → Option (List UInt8)} {transfer : BlockTransfer} {file : List UInt8}
    (found : segments transfer.segmentId = some file) : sourceOf segments transfer =
      if (readAt file transfer.offset transfer.slice.length).length = transfer.slice.length then
        some (readAt file transfer.offset transfer.slice.length)
      else none := by
  rw [sourceOf, found]
  rfl

theorem sourceOf_eq_some_iff {segments : ℕ → Option (List UInt8)} {transfer : BlockTransfer} {data : List UInt8} :
    sourceOf segments transfer = some data ↔ ∃ file, segments transfer.segmentId = some file ∧
      data = readAt file transfer.offset transfer.slice.length ∧ data.length = transfer.slice.length := by
  rw [sourceOf, Option.bind_eq_some_iff]
  refine exists_congr fun file => and_congr_right fun _ => ?_
  dsimp only
  split
  · next complete =>
    rw [Option.some.injEq, eq_comm]
    exact (and_iff_left_of_imp fun same => same ▸ complete).symm
  · next short => exact iff_of_false (fun absent => nomatch absent) fun ⟨same, complete⟩ => short (same ▸ complete)

section Calls

variable {segments : ℕ → Option (List UInt8)} {memory : List UInt8}

/-- A vectored read fills its buffers one after another. -/
theorem readCall_preadv {segmentId : ℕ} {buffers : List Slice} (some : buffers ≠ []) (offset : ℕ) :
    readCall segments memory (.preadv segmentId offset buffers) =
      ((spread offset buffers).map (transferAt segmentId)).foldlM (readTransferred segments) memory := by
  simp only [readCall]
  cases found : segments segmentId with
  | none =>
    cases buffers with
    | nil => exact absurd rfl some
    | cons slice rest => simp [spread, transferAt, readTransferred, sourceOf, found]
  | some file =>
    rw [Option.bind_some]
    clear some
    induction buffers generalizing memory offset with
    | nil => simp [totalLength, readAt, scatter, spread]
    | cons slice rest ih =>
      have total : totalLength (slice :: rest) = slice.length + totalLength rest := by simp [totalLength]
      have later := @ih (writeAt memory slice.start (readAt file offset slice.length)) (offset + slice.length)
      have long := length_readAt file offset (slice.length + totalLength rest)
      have first := length_readAt file offset slice.length
      have second := length_readAt file (offset + slice.length) (totalLength rest)
      rw [spread, List.map_cons, List.foldlM_cons, total, scatter, readAt_take, readAt_drop]
      rcases Nat.lt_or_ge (file.length - offset) slice.length with short | enough
      · have raised : sourceOf segments (transferAt segmentId (offset, slice)) = none := by
          rw [sourceOf_of_file found]
          exact if_neg (by dsimp only [transferAt]; omega)
        rw [readTransferred, raised, if_neg (by omega)]
        rfl
      · have filled : sourceOf segments (transferAt segmentId (offset, slice)) =
            Option.some (readAt file offset slice.length) := by
          rw [sourceOf_of_file found]
          exact if_pos (by dsimp only [transferAt]; omega)
        rw [readTransferred, filled]
        exact Eq.trans (if_congr (by omega) rfl rfl) later

theorem readCalls_eq {calls : List IoCall}
    (vectored : ∀ call ∈ calls, ∃ segmentId offset buffers, buffers ≠ [] ∧ call = .preadv segmentId offset buffers) :
    calls.foldlM (readCall segments) memory = (calls.flatMap transfers).foldlM (readTransferred segments) memory := by
  induction calls generalizing memory with
  | nil => rfl
  | cons call rest ih =>
    obtain ⟨segmentId, offset, buffers, some, rfl⟩ := vectored call (List.mem_cons_self ..)
    rw [List.foldlM_cons, List.flatMap_cons, List.foldlM_append, readCall_preadv some]
    exact bind_congr fun memory => ih fun other member => vectored other (List.mem_cons_of_mem _ member)

/-- A call that raises by itself ends the load. -/
theorem readCalls_raise {calls : List IoCall} {error : StoreError} (member : .raise error ∈ calls) :
    calls.foldlM (readCall segments) memory = none := by
  induction calls generalizing memory with
  | nil => cases member
  | cons call rest ih =>
    rw [List.foldlM_cons]
    rcases List.mem_cons.mp member with rfl | later
    · rfl
    · exact Option.bind_eq_none_iff.mpr fun memory _ => ih later

end Calls

/-! ## Blocks read one after another -/

section Blocks

variable {segments : ℕ → Option (List UInt8)} {memory memory' : List UInt8} {parts : List BlockTransfer}

/-- Plain reads do not depend on what the memory holds, so they raise or not one by one. -/
theorem isSome_readTransfers : (parts.foldlM (readTransferred segments) memory).isSome ↔
    ∀ transfer ∈ parts, (sourceOf segments transfer).isSome := by
  induction parts generalizing memory with
  | nil => simp
  | cons transfer rest ih =>
    rw [List.foldlM_cons, List.forall_mem_cons, readTransferred]
    cases sourceOf segments transfer with
    | none => simp
    | some data => simpa using ih

theorem length_readTransferred {transfer : BlockTransfer} (fits : Fits memory transfer.slice)
    (done : readTransferred segments memory transfer = some memory') : memory'.length = memory.length := by
  obtain ⟨data, found, rfl⟩ := Option.map_eq_some_iff.mp done
  obtain ⟨_, _, _, complete⟩ := sourceOf_eq_some_iff.mp found
  rw [Fits, ← complete] at fits
  exact length_writeAt_within fits

theorem readAt_readTransferred {transfer : BlockTransfer} (fits : Fits memory transfer.slice)
    (done : readTransferred segments memory transfer = some memory') {start count : ℕ}
    (apart : Apart ⟨start, count⟩ transfer.slice) : readAt memory' start count = readAt memory start count := by
  obtain ⟨data, found, rfl⟩ := Option.map_eq_some_iff.mp done
  obtain ⟨_, _, _, complete⟩ := sourceOf_eq_some_iff.mp found
  rw [Fits, ← complete] at fits
  rw [Apart, ← complete] at apart
  exact readAt_writeAt_apart fits apart

/-- What all plain reads leave alone. -/
theorem readTransfers_frame (fits : ∀ transfer ∈ parts, Fits memory transfer.slice)
    (done : parts.foldlM (readTransferred segments) memory = some memory') : memory'.length = memory.length ∧
      ∀ start count, (∀ transfer ∈ parts, Apart ⟨start, count⟩ transfer.slice) →
        readAt memory' start count = readAt memory start count := by
  induction parts generalizing memory with
  | nil =>
    obtain rfl : memory = memory' := Option.some.inj done
    exact ⟨rfl, fun _ _ _ => rfl⟩
  | cons transfer rest ih =>
    rw [List.foldlM_cons] at done
    obtain ⟨middle, here, later⟩ := Option.bind_eq_some_iff.mp done
    have fit := fits transfer (List.mem_cons_self ..)
    have length := length_readTransferred fit here
    obtain ⟨same, kept⟩ := ih (fun other member => by
      rw [Fits, length]
      exact fits other (List.mem_cons_of_mem _ member)) later
    refine ⟨same.trans length, fun start count apart => ?_⟩
    rw [kept start count fun other member => apart other (List.mem_cons_of_mem _ member)]
    exact readAt_readTransferred fit here (apart transfer (List.mem_cons_self ..))

/-- Plain reads into slices without a common byte each leave their own bytes. -/
theorem readTransfers_filled (fits : ∀ transfer ∈ parts, Fits memory transfer.slice)
    (disjoint : parts.Pairwise fun first second => Apart first.slice second.slice)
    (done : parts.foldlM (readTransferred segments) memory = some memory') {transfer : BlockTransfer}
    (member : transfer ∈ parts) :
    sourceOf segments transfer = some (readAt memory' transfer.slice.start transfer.slice.length) := by
  induction parts generalizing memory with
  | nil => cases member
  | cons first rest ih =>
    rw [List.foldlM_cons] at done
    obtain ⟨middle, here, later⟩ := Option.bind_eq_some_iff.mp done
    have fit := fits first (List.mem_cons_self ..)
    have fitsRest : ∀ other ∈ rest, Fits middle other.slice := by
      intro other inRest
      rw [Fits, length_readTransferred fit here]
      exact fits other (List.mem_cons_of_mem _ inRest)
    obtain ⟨away, disjoint⟩ := List.pairwise_cons.mp disjoint
    rcases List.mem_cons.mp member with rfl | inRest
    · obtain ⟨data, found, rfl⟩ := Option.map_eq_some_iff.mp here
      obtain ⟨_, _, _, complete⟩ := sourceOf_eq_some_iff.mp found
      rw [(readTransfers_frame fitsRest later).2 _ _ away, found, ← complete,
        readAt_of_holds (holds_writeAt memory transfer.slice.start data)]
    · exact ih fitsRest disjoint later inRest

end Blocks

/-! ## The entries of a load -/

/-- The entries of `load_many` before they are sorted. -/
def loadedEntries (io : IoConfig) (blockIds : List ℕ) (locations : List (Option SegmentLocation)) :
    List (SegmentLocation × Slice) :=
  (locations.zip blockIds).filterMap fun item =>
    item.1.map fun location => (location, blockSlice io.viewSize io.blockSize item.2)

def entryTransfer (entry : SegmentLocation × Slice) : BlockTransfer := ⟨entry.1.segmentId, entry.1.offset, entry.2⟩

section Entries

variable {io : IoConfig} {keys : List OffloadKey} {blockIds : List ℕ} {locations : List (Option SegmentLocation)}

theorem mem_loadedEntries {entry : SegmentLocation × Slice} : entry ∈ loadedEntries io blockIds locations ↔
    ∃ (i : ℕ) (location : SegmentLocation) (blockId : ℕ), locations[i]? = some (some location) ∧
      blockIds[i]? = some blockId ∧ entry = (location, blockSlice io.viewSize io.blockSize blockId) := by
  rw [loadedEntries, List.mem_filterMap]
  constructor
  · rintro ⟨⟨found, blockId⟩, member, same⟩
    obtain ⟨location, rfl, rfl⟩ := Option.map_eq_some_iff.mp same
    obtain ⟨i, listed⟩ := List.mem_iff_getElem?.mp member
    obtain ⟨inLocations, inBlocks⟩ := List.getElem?_zip_eq_some.mp listed
    exact ⟨i, location, blockId, inLocations, inBlocks, rfl⟩
  · rintro ⟨i, location, blockId, inLocations, inBlocks, rfl⟩
    exact ⟨(some location, blockId),
      List.mem_iff_getElem?.mpr ⟨i, List.getElem?_zip_eq_some.mpr ⟨inLocations, inBlocks⟩⟩, rfl⟩

/-- Different blocks have no byte in common. -/
theorem apart_loadedEntries (distinct : blockIds.Nodup) (inside : ∀ blockId ∈ blockIds, Inside io blockId)
    (length : blockIds.length ≤ locations.length) :
    (loadedEntries io blockIds locations).Pairwise fun first second => Apart first.2 second.2 := by
  have blocks : (locations.zip blockIds).Pairwise fun first second => first.2 ≠ second.2 := by
    rw [← List.pairwise_map (f := Prod.snd) (R := (· ≠ ·)), List.map_snd_zip length]
    exact distinct
  rw [loadedEntries, List.pairwise_filterMap]
  refine blocks.imp_of_mem ?_
  rintro ⟨found, blockId⟩ ⟨found', blockId'⟩ member member' differ _ same _ same'
  obtain ⟨location, _, rfl⟩ := Option.map_eq_some_iff.mp same
  obtain ⟨location', _, rfl⟩ := Option.map_eq_some_iff.mp same'
  simp only [blockSlice_of_inside (inside _ (List.of_mem_zip member).2),
    blockSlice_of_inside (inside _ (List.of_mem_zip member').2), Apart]
  rcases lt_or_gt_of_ne differ with before | after
  · left
    rw [← Nat.succ_mul]
    exact Nat.mul_le_mul_right _ before
  · right
    rw [← Nat.succ_mul]
    exact Nat.mul_le_mul_right _ after

theorem calls_loadMany (sameKeys : keys.length = blockIds.length) (sameLocations : keys.length = locations.length)
    (present : none ∉ locations) : (loadMany io keys blockIds locations).calls = loadEntries io ⟨[], 0, 0, []⟩
      (sortedBy (fun entry => toLex (entry.1.segmentId, entry.1.offset)) (loadedEntries io blockIds locations)) := by
  have complete : locations.filter Option.isNone = [] := by
    refine List.filter_eq_nil_iff.mpr fun found member absent => present ?_
    rwa [← Option.isNone_iff_eq_none.mp absent]
  rw [loadMany, if_neg (not_not.mpr sameKeys), if_neg (not_not.mpr sameLocations)]
  simp only [complete, ne_eq, not_true, if_false]
  rfl

/-- A key without a location stops the load before it begins. -/
theorem raise_of_absent (absent : none ∈ locations) :
    ∃ error, .raise error ∈ (loadMany io keys blockIds locations).calls := by
  have missing : locations.filter Option.isNone ≠ [] := List.ne_nil_of_mem (List.mem_filter.mpr ⟨absent, rfl⟩)
  rw [loadMany]
  split_ifs
  · exact ⟨_, List.mem_singleton_self _⟩
  · exact ⟨_, List.mem_singleton_self _⟩
  · simp only [ne_eq, missing, not_false_eq_true, if_true]
    exact ⟨_, List.mem_singleton_self _⟩

/-- A location of another length stops the load. -/
theorem raise_of_length {entries : List (SegmentLocation × Slice)} {entry : SegmentLocation × Slice}
    (member : entry ∈ entries) (other : entry.1.length ≠ io.blockSize) (state : IoState) :
    ∃ error, .raise error ∈ loadEntries io state entries := by
  induction entries generalizing state with
  | nil => cases member
  | cons first rest ih =>
    obtain ⟨location, destination⟩ := first
    rw [loadEntries]
    split_ifs with refused
    · exact ⟨_, List.mem_append_right _ (List.mem_singleton_self _)⟩
    · rcases List.mem_cons.mp member with rfl | later
      · exact absurd other refused
      · exact ih later _

/-- The blocks that a load transfers. -/
theorem mem_loadedTransfers (inside : ∀ blockId ∈ blockIds, Inside io blockId) {transfer : BlockTransfer} :
    transfer ∈ (loadedEntries io blockIds locations).map entryTransfer ↔
      ∃ (i : ℕ) (location : SegmentLocation) (blockId : ℕ), locations[i]? = some (some location) ∧
        blockIds[i]? = some blockId ∧
        transfer = ⟨location.segmentId, location.offset, ⟨blockId * io.blockSize, io.blockSize⟩⟩ := by
  rw [List.mem_map]
  constructor
  · rintro ⟨_, member, rfl⟩
    obtain ⟨i, location, blockId, listed, placed, rfl⟩ := mem_loadedEntries.mp member
    refine ⟨i, location, blockId, listed, placed, ?_⟩
    rw [entryTransfer, blockSlice_of_inside (inside blockId (List.mem_of_getElem? placed))]
  · rintro ⟨i, location, blockId, listed, placed, rfl⟩
    refine ⟨_, mem_loadedEntries.mpr ⟨i, location, blockId, listed, placed, rfl⟩, ?_⟩
    rw [entryTransfer, blockSlice_of_inside (inside blockId (List.mem_of_getElem? placed))]

/-- The calls of a load whose locations are all there and have the right length are plain reads, in some order. -/
theorem load_eq_plain (buffers : 0 < io.maxBuffers) (sameKeys : keys.length = blockIds.length)
    (sameLocations : keys.length = locations.length)
    (located : ∀ found ∈ locations, ∃ location, found = some location ∧ location.length = io.blockSize)
    (segments : ℕ → Option (List UInt8)) (memory : List UInt8) :
    ∃ parts : List BlockTransfer, parts.Perm ((loadedEntries io blockIds locations).map entryTransfer) ∧
      (loadMany io keys blockIds locations).calls.foldlM (readCall segments) memory =
        parts.foldlM (readTransferred segments) memory := by
  have present : none ∉ locations := by
    intro absent
    obtain ⟨_, same, _⟩ := located none absent
    cases same
  set sorted := sortedBy (fun entry : SegmentLocation × Slice => toLex (entry.1.segmentId, entry.1.offset))
    (loadedEntries io blockIds locations) with sorted_eq
  have whole : ∀ entry ∈ sorted, entry.1.length = io.blockSize := by
    intro entry member
    obtain ⟨i, location, blockId, listed, _, rfl⟩ := mem_loadedEntries.mp (mem_sortedBy.mp member)
    obtain ⟨_, same, length⟩ := located _ (List.mem_of_getElem? listed)
    cases same
    exact length
  refine ⟨sorted.map entryTransfer, (perm_sortedBy _ _).map _, ?_⟩
  rw [calls_loadMany sameKeys sameLocations present, readCalls_eq, covered_loadEntries buffers whole]
  · rfl
  · intro call member
    exact (calls_loadEntries whole member).resolve_left List.not_mem_nil

theorem exists_block (sameKeys : keys.length = blockIds.length) (sameLocations : keys.length = locations.length)
    {found : Option SegmentLocation} (member : found ∈ locations) :
    ∃ (i : ℕ) (blockId : ℕ), locations[i]? = some found ∧ blockIds[i]? = some blockId := by
  obtain ⟨i, listed⟩ := List.mem_iff_getElem?.mp member
  have bound := (List.getElem?_eq_some_iff.mp listed).1
  have inBlocks : i < blockIds.length := by omega
  exact ⟨i, blockIds[i], listed, List.getElem?_eq_getElem inBlocks⟩

/-- A load that returns was given a location of the right length for every key. -/
theorem located_of_isSome (sameKeys : keys.length = blockIds.length) (sameLocations : keys.length = locations.length)
    {segments : ℕ → Option (List UInt8)} {memory : List UInt8}
    (done : ((loadMany io keys blockIds locations).calls.foldlM (readCall segments) memory).isSome) :
    ∀ found ∈ locations, ∃ location, found = some location ∧ location.length = io.blockSize := by
  have unraised : ¬∃ error, .raise error ∈ (loadMany io keys blockIds locations).calls := by
    rintro ⟨error, member⟩
    rw [readCalls_raise member] at done
    cases done
  have present : none ∉ locations := fun absent => unraised (raise_of_absent absent)
  intro found member
  cases found with
  | none => exact absurd member present
  | some location =>
    refine ⟨location, rfl, of_not_not fun other => unraised ?_⟩
    obtain ⟨i, blockId, listed, placed⟩ := exists_block sameKeys sameLocations member
    have entry : (location, blockSlice io.viewSize io.blockSize blockId) ∈ loadedEntries io blockIds locations :=
      mem_loadedEntries.mpr ⟨i, location, blockId, listed, placed, rfl⟩
    rw [calls_loadMany sameKeys sameLocations present]
    exact raise_of_length (mem_sortedBy.mpr entry) other _

end Entries

/-- A location that can be read alone: its file is there, and it lies inside. -/
def Readable (segments : ℕ → Option (List UInt8)) (segmentId offset length : ℕ) : Prop :=
  ∃ file, segments segmentId = some file ∧ offset + length ≤ file.length

theorem isSome_sourceOf_iff {segments : ℕ → Option (List UInt8)} {transfer : BlockTransfer}
    (positive : 0 < transfer.slice.length) : (sourceOf segments transfer).isSome ↔
      Readable segments transfer.segmentId transfer.offset transfer.slice.length := by
  rw [Option.isSome_iff_exists]
  simp only [sourceOf_eq_some_iff, Readable]
  constructor
  · rintro ⟨data, file, found, rfl, complete⟩
    rw [length_readAt] at complete
    exact ⟨file, found, by omega⟩
  · rintro ⟨file, found, inside⟩
    refine ⟨_, file, found, rfl, ?_⟩
    rw [length_readAt]
    omega

section Load

variable {io : IoConfig} {keys : List OffloadKey} {blockIds : List ℕ} {locations : List (Option SegmentLocation)}
  {segments : ℕ → Option (List UInt8)} {memory memory' : List UInt8}

/-- When a load returns. -/
theorem isSome_load_iff (buffers : 0 < io.maxBuffers) (blockSize_pos : 0 < io.blockSize)
    (sameKeys : keys.length = blockIds.length) (sameLocations : keys.length = locations.length)
    (inside : ∀ blockId ∈ blockIds, Inside io blockId) :
    ((loadMany io keys blockIds locations).calls.foldlM (readCall segments) memory).isSome ↔
      ∀ found ∈ locations, ∃ location, found = some location ∧ location.length = io.blockSize ∧
        Readable segments location.segmentId location.offset io.blockSize := by
  constructor
  · intro done found member
    have located := located_of_isSome sameKeys sameLocations done
    obtain ⟨location, rfl, length⟩ := located found member
    obtain ⟨parts, perm, plain⟩ := load_eq_plain buffers sameKeys sameLocations located segments memory
    obtain ⟨i, blockId, listed, placed⟩ := exists_block sameKeys sameLocations member
    have inParts := perm.mem_iff.mpr ((mem_loadedTransfers inside).mpr ⟨i, location, blockId, listed, placed, rfl⟩)
    rw [plain] at done
    exact ⟨location, rfl, length, (isSome_sourceOf_iff blockSize_pos).mp (isSome_readTransfers.mp done _ inParts)⟩
  · intro readable
    obtain ⟨parts, perm, plain⟩ := load_eq_plain buffers sameKeys sameLocations (fun found member => by
      obtain ⟨location, same, length, _⟩ := readable found member
      exact ⟨location, same, length⟩) segments memory
    rw [plain, isSome_readTransfers]
    intro transfer member
    obtain ⟨i, location, blockId, listed, placed, rfl⟩ := (mem_loadedTransfers inside).mp (perm.mem_iff.mp member)
    obtain ⟨_, same, _, readable⟩ := readable _ (List.mem_of_getElem? listed)
    cases same
    exact (isSome_sourceOf_iff blockSize_pos).mpr readable

/-- What a load that returns has done to the buffer. -/
theorem load_filled (buffers : 0 < io.maxBuffers) (sameKeys : keys.length = blockIds.length)
    (sameLocations : keys.length = locations.length) (distinct : blockIds.Nodup)
    (inside : ∀ blockId ∈ blockIds, Inside io blockId) (view : io.viewSize = memory.length)
    (done : (loadMany io keys blockIds locations).calls.foldlM (readCall segments) memory = some memory') :
    (∀ (i : ℕ) (location : SegmentLocation) (blockId : ℕ), locations[i]? = some (some location) →
      blockIds[i]? = some blockId → ∃ file, segments location.segmentId = some file ∧
        readAt memory' (blockId * io.blockSize) io.blockSize = readAt file location.offset io.blockSize) ∧
    memory'.length = memory.length ∧
    ∀ position, (∀ blockId ∈ blockIds, position < blockId * io.blockSize ∨
      blockId * io.blockSize + io.blockSize ≤ position) → memory'[position]? = memory[position]? := by
  obtain ⟨parts, perm, plain⟩ := load_eq_plain buffers sameKeys sameLocations
    (located_of_isSome sameKeys sameLocations (Option.isSome_of_eq_some done)) segments memory
  have filled : parts.foldlM (readTransferred segments) memory = some memory' := plain.symm.trans done
  have fits : ∀ transfer ∈ parts, Fits memory transfer.slice := by
    intro transfer member
    obtain ⟨i, location, blockId, _, placed, rfl⟩ := (mem_loadedTransfers inside).mp (perm.mem_iff.mp member)
    exact (inside blockId (List.mem_of_getElem? placed)).trans_eq view
  have disjoint : parts.Pairwise fun first second => Apart first.slice second.slice := by
    rw [perm.pairwise_iff fun apart => apart.symm, List.pairwise_map]
    exact apart_loadedEntries distinct inside (by omega)
  obtain ⟨length, kept⟩ := readTransfers_frame fits filled
  refine ⟨fun i location blockId listed placed => ?_, length, fun position outside => ?_⟩
  · have member := perm.mem_iff.mpr ((mem_loadedTransfers inside).mpr ⟨i, location, blockId, listed, placed, rfl⟩)
    obtain ⟨file, found, bytes, _⟩ := sourceOf_eq_some_iff.mp (readTransfers_filled fits disjoint filled member)
    exact ⟨file, found, bytes⟩
  · have same : readAt memory' position 1 = readAt memory position 1 := by
      refine kept position 1 fun transfer member => ?_
      obtain ⟨i, location, blockId, _, placed, rfl⟩ := (mem_loadedTransfers inside).mp (perm.mem_iff.mp member)
      exact outside blockId (List.mem_of_getElem? placed)
    have byte := congrArg (fun bytes => bytes[0]?) same
    simpa only [getElem?_readAt, Nat.zero_lt_one, if_true, Nat.add_zero] using byte

end Load

/-- `load_many` returns if and only if every location is there, has the length of a block and lies inside its
segment file; then each block holds the bytes at its own location, and nothing else has changed. -/
theorem coalesced_reading_is_plain (blockSize iovMax : ℕ) (ioBatchBlocks : Option ℕ) (blockSize_pos : 0 < blockSize)
    (iovMax_pos : 0 < iovMax) (ioBatchBlocks_pos : ∀ bound ∈ ioBatchBlocks, 0 < bound)
    (segments : ℕ → Option (List UInt8)) (memory : List UInt8) (keys : List OffloadKey) (blockIds : List ℕ)
    (locations : List (Option SegmentLocation)) (sameKeys : keys.length = blockIds.length)
    (sameLocations : keys.length = locations.length) (distinct : blockIds.Nodup)
    (inside : ∀ blockId ∈ blockIds, blockId * blockSize + blockSize ≤ memory.length) :
    let load := (loadMany ⟨blockSize, memory.length, bufferBound iovMax ioBatchBlocks⟩ keys blockIds locations).calls
      |>.foldlM (readCall segments) memory
    (load.isSome ↔ ∀ found ∈ locations, ∃ location, found = some location ∧ location.length = blockSize ∧
      Readable segments location.segmentId location.offset blockSize) ∧
    ∀ memory', load = some memory' →
      (∀ (i : ℕ) (location : SegmentLocation) (blockId : ℕ), locations[i]? = some (some location) →
        blockIds[i]? = some blockId → ∃ file, segments location.segmentId = some file ∧
          readAt memory' (blockId * blockSize) blockSize = readAt file location.offset blockSize) ∧
      memory'.length = memory.length ∧
      ∀ position, (∀ blockId ∈ blockIds, position < blockId * blockSize ∨ blockId * blockSize + blockSize ≤ position) →
        memory'[position]? = memory[position]? := by
  intro load
  set io : IoConfig := ⟨blockSize, memory.length, bufferBound iovMax ioBatchBlocks⟩ with io_eq
  have buffers : 0 < io.maxBuffers := bufferBound_pos iovMax_pos ioBatchBlocks_pos
  have insideView : ∀ blockId ∈ blockIds, Inside io blockId := inside
  exact ⟨isSome_load_iff buffers blockSize_pos sameKeys sameLocations insideView,
    fun memory' done => load_filled buffers sameKeys sameLocations distinct insideView rfl done⟩

/-- Two segments, the second of which ends within its second block. -/
def twoSegments : ℕ → Option (List UInt8)
  | 0 => some [1, 2, 3, 4]
  | 1 => some [5, 6, 7]
  | _ => none

theorem coalesced_reading_is_plain_twoSegments :
    ((loadMany ⟨2, 8, bufferBound 1 (some 4)⟩ [[1], [2], [3]] [3, 0, 1]
      [some ⟨1, 0, 2⟩, some ⟨0, 2, 2⟩, some ⟨0, 0, 2⟩]).calls.foldlM (readCall twoSegments)
        (List.replicate 8 0)).isSome ∧
    ¬((loadMany ⟨2, 8, bufferBound 1 (some 4)⟩ [[1], [2], [3]] [3, 0, 1]
      [some ⟨1, 0, 2⟩, some ⟨1, 2, 2⟩, some ⟨0, 0, 2⟩]).calls.foldlM (readCall twoSegments)
        (List.replicate 8 0)).isSome := by
  constructor
  · refine (coalesced_reading_is_plain 2 1 (some 4) (by decide) (by decide) (by decide) twoSegments
      (List.replicate 8 0) [[1], [2], [3]] [3, 0, 1] [some ⟨1, 0, 2⟩, some ⟨0, 2, 2⟩, some ⟨0, 0, 2⟩]
      rfl rfl (by decide) (by decide)).1.mpr ?_
    simp [Readable, twoSegments]
  · refine mt (coalesced_reading_is_plain 2 1 (some 4) (by decide) (by decide) (by decide) twoSegments
      (List.replicate 8 0) [[1], [2], [3]] [3, 0, 1] [some ⟨1, 0, 2⟩, some ⟨1, 2, 2⟩, some ⟨0, 0, 2⟩]
      rfl rfl (by decide) (by decide)).1.mp ?_
    simp [Readable, twoSegments]

end KVTiering.Soundness
