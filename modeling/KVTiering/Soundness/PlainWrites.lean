import KVTiering.Soundness.VectoredIo
import Mathlib.Data.List.Pairwise

/-! # Coalesced writing is plain writing

However the entries of a plan are grouped, merged into runs and cut into calls, and in whatever order the calls
are made, with whatever other writes in between that keep away from the extents of the plan: the segment files
end up as if each entry's block had been written alone. A run is its blocks written one after another, and
writes to disjoint extents commute.
-/

namespace KVTiering.Soundness

open Model

/-- Bytes for a segment file. -/
structure SegmentBytes where
  segmentId : ℕ
  offset : ℕ
  data : List UInt8

/-- `os.pwrite` to a segment file. -/
def writeBytes (segments : ℕ → List UInt8) (bytes : SegmentBytes) : ℕ → List UInt8 :=
  Function.update segments bytes.segmentId (writeAt (segments bytes.segmentId) bytes.offset bytes.data)

/-- A `pwritev` call of a task, on the primary tier. -/
def writeCall (memory : List UInt8) (segments : ℕ → List UInt8) : IoCall → ℕ → List UInt8
  | .pwritev segmentId offset buffers => writeBytes segments ⟨segmentId, offset, gather memory buffers⟩
  | _ => segments

/-- The block of an entry, written alone. -/
def writeBlock (blockSize : ℕ) (memory : List UInt8) (segments : ℕ → List UInt8) (entry : SegmentWrite) :
    ℕ → List UInt8 :=
  writeBytes segments ⟨entry.segmentId, entry.offset, readAt memory (entry.blockId * blockSize) blockSize⟩

/-- The workers of the cluster make their calls so. -/
theorem writeCall_of_perform {ι : Type} [DecidableEq ι] (c : Cluster ι) (process : ι) (segmentId offset : ℕ)
    (buffers : List Slice) :
    (c.perform process (.pwritev segmentId offset buffers)).map (fun c => c.segments) =
      some (writeCall (c.memory process) c.segments (.pwritev segmentId offset buffers)) := rfl

/-- The extents of two entries have no byte in common. -/
def ExtentsApart (blockSize : ℕ) (first second : SegmentWrite) : Prop :=
  first.segmentId = second.segmentId →
    first.offset + blockSize ≤ second.offset ∨ second.offset + blockSize ≤ first.offset

instance (blockSize : ℕ) : Std.Symm (ExtentsApart blockSize) := ⟨fun _ _ apart same => (apart same.symm).symm⟩

/-- Some bytes keep away from the extent of an entry. -/
def BytesApart (blockSize : ℕ) (entry : SegmentWrite) (bytes : SegmentBytes) : Prop :=
  entry.segmentId = bytes.segmentId →
    entry.offset + blockSize ≤ bytes.offset ∨ bytes.offset + bytes.data.length ≤ entry.offset

theorem writeBytes_comm {segments : ℕ → List UInt8} {first second : SegmentBytes}
    (apart : first.segmentId = second.segmentId → first.offset + first.data.length ≤ second.offset ∨
      second.offset + second.data.length ≤ first.offset) :
    writeBytes (writeBytes segments first) second = writeBytes (writeBytes segments second) first := by
  unfold writeBytes
  rcases eq_or_ne first.segmentId second.segmentId with same | differ
  · rw [same]
    simp only [Function.update_self, Function.update_idem]
    rw [writeAt_comm (apart same)]
  · rw [Function.update_of_ne differ.symm, Function.update_of_ne differ, Function.update_comm differ]

/-! ## A call is its blocks -/

/-- A transfer of a call, written alone. -/
def writeTransferred (memory : List UInt8) (segments : ℕ → List UInt8) (transfer : BlockTransfer) : ℕ → List UInt8 :=
  writeBytes segments
    ⟨transfer.segmentId, transfer.offset, readAt memory transfer.slice.start transfer.slice.length⟩

/-- A run of buffers is written one buffer after another. -/
theorem writeBytes_gather {memory : List UInt8} {buffers : List Slice} (fits : ∀ slice ∈ buffers, Fits memory slice)
    (segments : ℕ → List UInt8) (segmentId offset : ℕ) :
    writeBytes segments ⟨segmentId, offset, gather memory buffers⟩ =
      ((spread offset buffers).map (transferAt segmentId)).foldl (writeTransferred memory) segments := by
  induction buffers generalizing segments offset with
  | nil => simp [writeBytes, gather, spread]
  | cons slice rest ih =>
    have length := length_readAt_of_fits (fits slice (List.mem_cons_self ..))
    have cut : writeBytes segments ⟨segmentId, offset, gather memory (slice :: rest)⟩ =
        writeBytes (writeBytes segments ⟨segmentId, offset, readAt memory slice.start slice.length⟩)
          ⟨segmentId, offset + slice.length, gather memory rest⟩ := by
      simp only [writeBytes, gather_cons, writeAt_append, length, Function.update_self, Function.update_idem]
    rw [cut, ih fun other member => fits other (List.mem_cons_of_mem _ member)]
    rfl

section Blocks

variable {io : IoConfig} {memory : List UInt8} {entries : List SegmentWrite}

theorem writeCalls_eq {calls : List IoCall}
    (vectored : ∀ call ∈ calls, ∃ segmentId offset buffers, call = .pwritev segmentId offset buffers)
    (fits : ∀ transfer ∈ calls.flatMap transfers, Fits memory transfer.slice) (segments : ℕ → List UInt8) :
    calls.foldl (writeCall memory) segments = (calls.flatMap transfers).foldl (writeTransferred memory) segments := by
  induction calls generalizing segments with
  | nil => rfl
  | cons call rest ih =>
    obtain ⟨segmentId, offset, buffers, rfl⟩ := vectored call (List.mem_cons_self ..)
    have later := ih (fun other member => vectored other (List.mem_cons_of_mem _ member))
      fun transfer member => fits transfer (by rw [List.flatMap_cons]; exact List.mem_append_right _ member)
    have here : ∀ slice ∈ buffers, Fits memory slice := by
      intro slice member
      rw [← map_snd_spread offset buffers] at member
      obtain ⟨part, listed, rfl⟩ := List.mem_map.mp member
      refine fits (transferAt segmentId part) ?_
      rw [List.flatMap_cons]
      exact List.mem_append_left _ (List.mem_map_of_mem listed)
    rw [List.foldl_cons, later, List.flatMap_cons, List.foldl_append]
    change _ = (rest.flatMap transfers).foldl _
      (((spread offset buffers).map (transferAt segmentId)).foldl (writeTransferred memory) segments)
    rw [← writeBytes_gather here]
    rfl

/-- The calls of all groups of a plan. -/
def groupCalls (io : IoConfig) (entries : List SegmentWrite) : List IoCall :=
  (groupWrites entries).flatMap fun group => (writeEntries io group).calls

theorem calls_groupCalls {call : IoCall} (member : call ∈ groupCalls io entries) :
    ∃ segmentId offset buffers, call = .pwritev segmentId offset buffers := by
  obtain ⟨group, _, listed⟩ := List.mem_flatMap.mp member
  exact calls_writeEntries listed

/-- They transfer each entry's block once. -/
theorem perm_groupCalls (buffers : 0 < io.maxBuffers) (inside : ∀ entry ∈ entries, Inside io entry.blockId) :
    ((groupCalls io entries).flatMap transfers).Perm (entries.map (writeTransfer io)) := by
  have perm := perm_groupWrites entries
  have groups : (groupCalls io entries).flatMap transfers = (groupWrites entries).flatten.map (writeTransfer io) := by
    rw [groupCalls, List.flatMap_assoc, List.map_flatten, ← List.flatMap_def]
    refine List.flatMap_congr fun group listed => transfers_writeEntries buffers fun entry member => ?_
    exact inside entry (perm.mem_iff.mp (List.mem_flatten.mpr ⟨group, listed, member⟩))
  rw [groups]
  exact perm.map _

theorem writeTransferred_writeTransfer {entry : SegmentWrite} (inside : Inside io entry.blockId)
    (segments : ℕ → List UInt8) :
    writeTransferred memory segments (writeTransfer io entry) = writeBlock io.blockSize memory segments entry := by
  rw [writeTransferred, writeTransfer, blockSlice_of_inside inside, writeBlock]

theorem fits_writeTransfer {entry : SegmentWrite} (inside : Inside io entry.blockId)
    (view : io.viewSize = memory.length) : Fits memory (writeTransfer io entry).slice := by
  rw [writeTransfer, blockSlice_of_inside inside, Fits]
  rwa [Inside, view] at inside

theorem length_block {entry : SegmentWrite} (inside : Inside io entry.blockId) (view : io.viewSize = memory.length) :
    (readAt memory (entry.blockId * io.blockSize) io.blockSize).length = io.blockSize := by
  rw [Inside, view] at inside
  rw [length_readAt]
  omega

/-- The blocks of two entries can be written in either order. -/
theorem writeBlock_comm {first second : SegmentWrite} (insideFirst : Inside io first.blockId)
    (insideSecond : Inside io second.blockId) (view : io.viewSize = memory.length)
    (apart : ExtentsApart io.blockSize first second) (segments : ℕ → List UInt8) :
    writeBlock io.blockSize memory (writeBlock io.blockSize memory segments first) second =
      writeBlock io.blockSize memory (writeBlock io.blockSize memory segments second) first := by
  apply writeBytes_comm
  rw [length_block insideFirst view, length_block insideSecond view]
  exact apart

/-- The calls of a plan, in any order, write its blocks one after another. -/
theorem writeCalls_plan {calls : List IoCall} (perm : calls.Perm (groupCalls io entries)) (buffers : 0 < io.maxBuffers)
    (inside : ∀ entry ∈ entries, Inside io entry.blockId) (view : io.viewSize = memory.length)
    (apart : entries.Pairwise (ExtentsApart io.blockSize)) (segments : ℕ → List UInt8) :
    calls.foldl (writeCall memory) segments = entries.foldl (writeBlock io.blockSize memory) segments := by
  have blocks : (calls.flatMap transfers).Perm (entries.map (writeTransfer io)) :=
    (perm.flatMap_right transfers).trans (perm_groupCalls buffers inside)
  have vectored : ∀ call ∈ calls, ∃ segmentId offset buffers, call = .pwritev segmentId offset buffers :=
    fun call member => calls_groupCalls (perm.mem_iff.mp member)
  have fits : ∀ transfer ∈ calls.flatMap transfers, Fits memory transfer.slice := by
    intro transfer member
    obtain ⟨entry, listed, rfl⟩ := List.mem_map.mp (blocks.mem_iff.mp member)
    exact fits_writeTransfer (inside entry listed) view
  have alone : ∀ segments, ∀ entry ∈ entries, writeTransferred memory segments (writeTransfer io entry) =
      writeBlock io.blockSize memory segments entry :=
    fun segments entry member => writeTransferred_writeTransfer (inside entry member) segments
  have swap : ∀ first ∈ entries.map (writeTransfer io), ∀ second ∈ entries.map (writeTransfer io), ∀ segments,
      writeTransferred memory (writeTransferred memory segments first) second =
        writeTransferred memory (writeTransferred memory segments second) first := by
    intro _ inFirst _ inSecond segments
    obtain ⟨first, listed, rfl⟩ := List.mem_map.mp inFirst
    obtain ⟨second, listed', rfl⟩ := List.mem_map.mp inSecond
    rw [alone _ first listed, alone _ second listed', alone _ second listed', alone _ first listed]
    rcases eq_or_ne first second with rfl | differ
    · rfl
    · exact writeBlock_comm (inside first listed) (inside second listed') view
        (apart.forall listed listed' differ) segments
  calc calls.foldl (writeCall memory) segments
    _ = (calls.flatMap transfers).foldl (writeTransferred memory) segments := writeCalls_eq vectored fits segments
    _ = (entries.map (writeTransfer io)).foldl (writeTransferred memory) segments :=
      (blocks.symm.foldl_eq' swap segments).symm
    _ = entries.foldl (fun segments entry => writeTransferred memory segments (writeTransfer io entry)) segments :=
      List.foldl_map
    _ = entries.foldl (writeBlock io.blockSize memory) segments := List.foldl_ext _ _ _ alone

/-- `write_entries` writes its blocks one after another. -/
theorem writeEntries_plain (buffers : 0 < io.maxBuffers) (inside : ∀ entry ∈ entries, Inside io entry.blockId)
    (view : io.viewSize = memory.length) (segments : ℕ → List UInt8) :
    (writeEntries io entries).calls.foldl (writeCall memory) segments =
      entries.foldl (writeBlock io.blockSize memory) segments := by
  have blocks := transfers_writeEntries buffers inside
  rw [writeCalls_eq (fun call member => calls_writeEntries member) (fun transfer member => ?_) segments, blocks,
    List.foldl_map]
  · exact List.foldl_ext _ _ _ fun segments entry member =>
      writeTransferred_writeTransfer (inside entry member) segments
  · rw [blocks] at member
    obtain ⟨entry, listed, rfl⟩ := List.mem_map.mp member
    exact fits_writeTransfer (inside entry listed) view

/-- A call of a plan and bytes that keep away from its entries can be written in either order. -/
theorem writeCall_writeBytes {call : IoCall} (member : call ∈ groupCalls io entries) (buffers : 0 < io.maxBuffers)
    (inside : ∀ entry ∈ entries, Inside io entry.blockId) (view : io.viewSize = memory.length)
    {bytes : SegmentBytes} (apart : ∀ entry ∈ entries, BytesApart io.blockSize entry bytes)
    (segments : ℕ → List UInt8) :
    writeBytes (writeCall memory segments call) bytes = writeCall memory (writeBytes segments bytes) call := by
  have blocks : ∀ transfer ∈ [call].flatMap transfers, ∃ entry ∈ entries, transfer = writeTransfer io entry := by
    intro transfer placed
    have listed : transfer ∈ (groupCalls io entries).flatMap transfers := by
      rw [List.flatMap_singleton] at placed
      exact List.mem_flatMap.mpr ⟨call, member, placed⟩
    obtain ⟨entry, inside, rfl⟩ := List.mem_map.mp ((perm_groupCalls buffers inside).mem_iff.mp listed)
    exact ⟨entry, inside, rfl⟩
  have vectored : ∀ other ∈ [call], ∃ segmentId offset buffers, other = .pwritev segmentId offset buffers := by
    intro other same
    rw [List.mem_singleton.mp same]
    exact calls_groupCalls member
  have fits : ∀ transfer ∈ [call].flatMap transfers, Fits memory transfer.slice := by
    intro transfer placed
    obtain ⟨entry, listed, rfl⟩ := blocks transfer placed
    exact fits_writeTransfer (inside entry listed) view
  have cut := fun segments => writeCalls_eq vectored fits segments
  simp only [List.foldl_cons, List.foldl_nil] at cut
  rw [cut, cut]
  refine (foldl_past (fun segments => writeBytes segments bytes) (writeTransferred memory) _ ?_ segments).symm
  intro transfer placed segments
  obtain ⟨entry, listed, rfl⟩ := blocks transfer placed
  rw [writeTransferred_writeTransfer (inside entry listed), writeTransferred_writeTransfer (inside entry listed)]
  refine writeBytes_comm fun same => ?_
  rw [length_block (inside entry listed) view]
  exact (apart entry listed same.symm).symm

/-- Writing blocks alone keeps every byte outside of their extents. -/
theorem writeBlocks_outside (inside : ∀ entry ∈ entries, Inside io entry.blockId) (view : io.viewSize = memory.length)
    {segments : ℕ → List UInt8} {segmentId position : ℕ} {byte : UInt8}
    (before : (segments segmentId)[position]? = some byte)
    (outside : ∀ entry ∈ entries, entry.segmentId = segmentId →
      position < entry.offset ∨ entry.offset + io.blockSize ≤ position) :
    (entries.foldl (writeBlock io.blockSize memory) segments segmentId)[position]? = some byte := by
  induction entries generalizing segments with
  | nil => exact before
  | cons entry rest ih =>
    refine ih (fun other member => inside other (List.mem_cons_of_mem _ member)) ?_
      fun other member => outside other (List.mem_cons_of_mem _ member)
    rcases eq_or_ne segmentId entry.segmentId with rfl | differ
    · rw [writeBlock, writeBytes, Function.update_self, getElem?_writeAt_outside
        (List.getElem?_eq_some_iff.mp before).1]
      · exact before
      · rw [length_block (inside entry (List.mem_cons_self ..)) view]
        exact outside entry (List.mem_cons_self ..) rfl
    · rw [writeBlock, writeBytes, Function.update_of_ne differ]
      exact before

/-- Blocks written alone to disjoint extents are all there in the end. -/
theorem holds_writeBlocks (inside : ∀ entry ∈ entries, Inside io entry.blockId) (view : io.viewSize = memory.length)
    (apart : entries.Pairwise (ExtentsApart io.blockSize)) {segments : ℕ → List UInt8} {entry : SegmentWrite}
    (member : entry ∈ entries) :
    Holds (entries.foldl (writeBlock io.blockSize memory) segments entry.segmentId) entry.offset
      (readAt memory (entry.blockId * io.blockSize) io.blockSize) := by
  induction entries generalizing segments with
  | nil => cases member
  | cons first rest ih =>
    obtain ⟨away, apart⟩ := List.pairwise_cons.mp apart
    have insideRest : ∀ other ∈ rest, Inside io other.blockId :=
      fun other later => inside other (List.mem_cons_of_mem _ later)
    rcases List.mem_cons.mp member with rfl | later
    · intro i cell found
      have inBlock := (List.getElem?_eq_some_iff.mp found).1
      rw [length_block (inside entry (List.mem_cons_self ..)) view] at inBlock
      refine writeBlocks_outside insideRest view ?_ fun other later same => ?_
      · rw [writeBlock, writeBytes, Function.update_self]
        exact holds_writeAt _ _ _ found
      · rcases away other later same.symm with before | after <;> omega
    · exact ih insideRest apart later

/-- A segment without entries is left alone. -/
theorem writeBlocks_elsewhere {segments : ℕ → List UInt8} {segmentId : ℕ}
    (elsewhere : ∀ entry ∈ entries, entry.segmentId ≠ segmentId) :
    entries.foldl (writeBlock io.blockSize memory) segments segmentId = segments segmentId := by
  induction entries generalizing segments with
  | nil => rfl
  | cons entry rest ih =>
    rw [List.foldl_cons, ih fun other member => elsewhere other (List.mem_cons_of_mem _ member), writeBlock,
      writeBytes, Function.update_of_ne (elsewhere entry (List.mem_cons_self ..)).symm]

end Blocks

/-- Running `write_entries` on every group of a plan, its calls in any order and mixed with any other writes that
keep away from the extents of the plan, leaves the segment files as writing each entry's block alone does. -/
theorem coalesced_writing_is_plain (blockSize iovMax : ℕ) (ioBatchBlocks : Option ℕ) (iovMax_pos : 0 < iovMax)
    (ioBatchBlocks_pos : ∀ bound ∈ ioBatchBlocks, 0 < bound) (memory : List UInt8) (entries : List SegmentWrite)
    (inside : ∀ entry ∈ entries, entry.blockId * blockSize + blockSize ≤ memory.length)
    (apart : entries.Pairwise (ExtentsApart blockSize)) (mixed : List (IoCall ⊕ SegmentBytes))
    (ours : (mixed.filterMap Sum.getLeft?).Perm ((groupWrites entries).flatMap fun group =>
      (writeEntries ⟨blockSize, memory.length, bufferBound iovMax ioBatchBlocks⟩ group).calls))
    (others : ∀ bytes ∈ mixed.filterMap Sum.getRight?, ∀ entry ∈ entries, BytesApart blockSize entry bytes)
    (segments : ℕ → List UInt8) :
    let before := (mixed.filterMap Sum.getRight?).foldl writeBytes segments
    let final := mixed.foldl (fun segments step => step.elim (writeCall memory segments) (writeBytes segments)) segments
    final = entries.foldl (writeBlock blockSize memory) before ∧
      (∀ segmentId, (∀ entry ∈ entries, entry.segmentId ≠ segmentId) → final segmentId = before segmentId) ∧
      ∀ segmentId position byte, (before segmentId)[position]? = some byte →
        (∀ entry ∈ entries, entry.segmentId = segmentId →
          position < entry.offset ∨ entry.offset + blockSize ≤ position) →
        (final segmentId)[position]? = some byte := by
  intro before final
  set io : IoConfig := ⟨blockSize, memory.length, bufferBound iovMax ioBatchBlocks⟩ with io_eq
  have buffers : 0 < io.maxBuffers := bufferBound_pos iovMax_pos ioBatchBlocks_pos
  have plain : final = entries.foldl (writeBlock io.blockSize memory) before := by
    have separated := foldl_interleaved (writeCall memory) writeBytes mixed (fun call member bytes listed segments =>
      writeCall_writeBytes (ours.mem_iff.mp member) buffers inside rfl (others bytes listed) segments) segments
    rw [← writeCalls_plan ours buffers inside rfl apart]
    exact separated
  refine ⟨plain, fun segmentId elsewhere => ?_, fun segmentId position byte held outside => ?_⟩
  · rw [plain]
    exact writeBlocks_elsewhere elsewhere
  · rw [plain]
    exact writeBlocks_outside inside rfl held outside

/-- Three blocks for two segments, two of them adjacent. -/
def threeBlocks : List SegmentWrite := [⟨[1], 0, 0, 1⟩, ⟨[2], 0, 2, 3⟩, ⟨[3], 5, 0, 0⟩]

/-- Their calls with one buffer each, in another order, and the write of another plan among them. -/
def shuffledCalls : List (IoCall ⊕ SegmentBytes) :=
  [.inl (.pwritev 5 0 [⟨0, 2⟩]), .inl (.pwritev 0 2 [⟨6, 2⟩]), .inr ⟨0, 4, [9, 9]⟩, .inl (.pwritev 0 0 [⟨2, 2⟩])]

theorem coalesced_writing_is_plain_threeBlocks :
    shuffledCalls.foldl (fun segments step => step.elim (writeCall [1, 2, 3, 4, 5, 6, 7, 8] segments)
      (writeBytes segments)) (fun _ => []) =
      threeBlocks.foldl (writeBlock 2 [1, 2, 3, 4, 5, 6, 7, 8])
        ([⟨0, 4, [9, 9]⟩].foldl writeBytes fun _ => []) := by
  refine (coalesced_writing_is_plain 2 1 (some 4) (by decide) (by decide) [1, 2, 3, 4, 5, 6, 7, 8] threeBlocks
    (by decide) ?_ shuffledCalls (by decide) ?_ fun _ => []).1
  · simp [threeBlocks, ExtentsApart]
  · simp [threeBlocks, shuffledCalls, BytesApart]

end KVTiering.Soundness
