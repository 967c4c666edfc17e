import KVTiering.Soundness.Coalescing

/-! # The bytes of a vectored call

A vectored write leaves every buffer at its own offset, and any stretch of the file that it does not overlap, or
overlaps with the same bytes, as it was. A vectored read into disjoint buffers leaves in each of them the bytes at
its own offset, and does not touch the rest of the memory. Both hold for the frame of a call that stops part of
the way.
-/

namespace KVTiering.Soundness

open Model

/-- The slice lies in the memory. -/
def Fits (memory : List UInt8) (slice : Slice) : Prop := slice.start + slice.length ≤ memory.length

/-- Two slices have no byte in common. -/
def Apart (first second : Slice) : Prop :=
  first.start + first.length ≤ second.start ∨ second.start + second.length ≤ first.start

theorem length_readAt_of_fits {memory : List UInt8} {slice : Slice} (fits : Fits memory slice) :
    (readAt memory slice.start slice.length).length = slice.length := by
  rw [Fits] at fits
  rw [length_readAt]
  omega

theorem map_snd_spread (offset : ℕ) (buffers : List Slice) : (spread offset buffers).map Prod.snd = buffers := by
  induction buffers generalizing offset with
  | nil => rfl
  | cons slice rest ih => rw [spread, List.map_cons, ih]

theorem le_of_mem_spread {offset : ℕ} {buffers : List Slice} {part : ℕ × Slice}
    (member : part ∈ spread offset buffers) : offset ≤ part.1 := by
  induction buffers generalizing offset with
  | nil => cases member
  | cons slice rest ih =>
    rcases List.mem_cons.mp member with rfl | later
    · exact le_rfl
    · exact (Nat.le_add_right _ _).trans (ih later)

/-- The buffers of a call come one after another. -/
theorem pairwise_spread (offset : ℕ) (buffers : List Slice) :
    (spread offset buffers).Pairwise fun first second => first.1 + first.2.length ≤ second.1 := by
  induction buffers generalizing offset with
  | nil => exact .nil
  | cons slice rest ih => exact .cons (fun part later => le_of_mem_spread later) (ih _)

/-! ## Writing -/

theorem gather_cons (memory : List UInt8) (slice : Slice) (rest : List Slice) :
    gather memory (slice :: rest) = readAt memory slice.start slice.length ++ gather memory rest := rfl

variable {memory : List UInt8} {buffers : List Slice}

/-- A run of buffers is held piece by piece. -/
theorem holds_of_gather (fits : ∀ slice ∈ buffers, Fits memory slice) {file : List UInt8} {offset : ℕ}
    (holds : Holds file offset (gather memory buffers)) {part : ℕ × Slice} (member : part ∈ spread offset buffers) :
    Holds file part.1 (readAt memory part.2.start part.2.length) := by
  induction buffers generalizing offset with
  | nil => cases member
  | cons slice rest ih =>
    rw [gather_cons, holds_append, length_readAt_of_fits (fits slice (List.mem_cons_self ..))] at holds
    rcases List.mem_cons.mp member with rfl | later
    · exact holds.1
    · exact ih (fun other inRest => fits other (List.mem_cons_of_mem _ inRest)) holds.2 later

/-- Each byte of a run comes from one of its buffers. -/
theorem exists_of_getElem?_gather (fits : ∀ slice ∈ buffers, Fits memory slice) {index : ℕ} {cell : UInt8}
    (found : (gather memory buffers)[index]? = some cell) (offset : ℕ) :
    ∃ part ∈ spread offset buffers, part.1 ≤ offset + index ∧
      (readAt memory part.2.start part.2.length)[offset + index - part.1]? = some cell := by
  induction buffers generalizing index offset with
  | nil => simp [gather] at found
  | cons slice rest ih =>
    have length := length_readAt_of_fits (fits slice (List.mem_cons_self ..))
    rw [gather_cons] at found
    rcases Nat.lt_or_ge index slice.length with first | later
    · rw [List.getElem?_append_left (by omega)] at found
      exact ⟨(offset, slice), List.mem_cons_self .., Nat.le_add_right .., by simpa using found⟩
    · rw [List.getElem?_append_right (by omega), length] at found
      obtain ⟨part, member, before, read⟩ :=
        ih (fun other inRest => fits other (List.mem_cons_of_mem _ inRest)) found (offset + slice.length)
      have shifted : offset + slice.length + (index - slice.length) = offset + index := by omega
      rw [shifted] at before read
      exact ⟨part, List.mem_cons_of_mem _ member, before, read⟩

/-- A stretch keeps its bytes in a write, complete or not, whose buffers leave it alone or bring the same bytes to
the same place. -/
theorem holds_gathered (fits : ∀ slice ∈ buffers, Fits memory slice) {file data : List UInt8} {start offset : ℕ}
    (holds : Holds file start data)
    (agrees : ∀ part ∈ spread offset buffers, part.1 + part.2.length ≤ start ∨ start + data.length ≤ part.1 ∨
      part.1 = start ∧ readAt memory part.2.start part.2.length = data) (transferred : ℕ) :
    Holds (writeAt file offset ((gather memory buffers).take transferred)) start data := by
  apply holds.writeAt
  intro i j cell other written old meet
  rw [List.getElem?_take] at written
  split at written
  · obtain ⟨part, member, before, read⟩ := exists_of_getElem?_gather fits written offset
    have inData := (List.getElem?_eq_some_iff.mp old).1
    have inPart := (List.getElem?_eq_some_iff.mp read).1
    rw [length_readAt] at inPart
    rcases agrees part member with above | below | ⟨same, bytes⟩
    · omega
    · omega
    · rw [bytes] at read
      have index : offset + i - part.1 = j := by omega
      rw [index, old] at read
      exact (Option.some.inj read).symm
  · cases written

/-! ## Reading -/

theorem readAt_writeAt_apart {data : List UInt8} {offset start count : ℕ}
    (within : offset + data.length ≤ memory.length)
    (apart : start + count ≤ offset ∨ offset + data.length ≤ start) :
    readAt (writeAt memory offset data) start count = readAt memory start count := by
  apply List.ext_getElem?
  intro i
  rw [getElem?_readAt, getElem?_readAt]
  split
  · rcases Nat.lt_or_ge (start + i) memory.length with inside | outside
    · exact getElem?_writeAt_outside inside (by omega)
    · rw [List.getElem?_eq_none outside, List.getElem?_eq_none]
      rwa [length_writeAt_within within]
  · rfl

theorem length_scatter (fits : ∀ slice ∈ buffers, Fits memory slice) (data : List UInt8) :
    (scatter memory buffers data).length = memory.length := by
  induction buffers generalizing memory data with
  | nil => rfl
  | cons slice rest ih =>
    have first := fits slice (List.mem_cons_self ..)
    rw [Fits] at first
    have length : (writeAt memory slice.start (data.take slice.length)).length = memory.length :=
      length_writeAt_within (by rw [List.length_take]; omega)
    rw [scatter, ih, length]
    intro other member
    rw [Fits, length]
    exact fits other (List.mem_cons_of_mem _ member)

/-- A read leaves alone what none of its buffers meets. -/
theorem readAt_scatter_apart (fits : ∀ slice ∈ buffers, Fits memory slice) {start count : ℕ}
    (apart : ∀ slice ∈ buffers, Apart ⟨start, count⟩ slice) (data : List UInt8) :
    readAt (scatter memory buffers data) start count = readAt memory start count := by
  induction buffers generalizing memory data with
  | nil => rfl
  | cons slice rest ih =>
    have first := fits slice (List.mem_cons_self ..)
    have away := apart slice (List.mem_cons_self ..)
    rw [Fits] at first
    simp only [Apart] at away
    have taken : (data.take slice.length).length ≤ slice.length := by
      rw [List.length_take]
      omega
    have length : (writeAt memory slice.start (data.take slice.length)).length = memory.length :=
      length_writeAt_within (by omega)
    rw [scatter, ih]
    · exact readAt_writeAt_apart (by omega) (by omega)
    · intro other member
      rw [Fits, length]
      exact fits other (List.mem_cons_of_mem _ member)
    · exact fun other member => apart other (List.mem_cons_of_mem _ member)

/-- A complete read into disjoint buffers leaves in each of them the bytes at its offset. -/
theorem readAt_scatter (fits : ∀ slice ∈ buffers, Fits memory slice) {file : List UInt8} {offset : ℕ}
    (complete : (readAt file offset (totalLength buffers)).length = totalLength buffers)
    (disjoint : (spread offset buffers).Pairwise fun first second => Apart first.2 second.2) {part : ℕ × Slice}
    (member : part ∈ spread offset buffers) :
    readAt (scatter memory buffers (readAt file offset (totalLength buffers))) part.2.start part.2.length =
      readAt file part.1 part.2.length := by
  induction buffers generalizing memory offset with
  | nil => cases member
  | cons slice rest ih =>
    have total : totalLength (slice :: rest) = slice.length + totalLength rest := by simp [totalLength]
    have taken : (readAt file offset (totalLength (slice :: rest))).take slice.length =
        readAt file offset slice.length := by rw [total, readAt_take]
    have dropped : (readAt file offset (totalLength (slice :: rest))).drop slice.length =
        readAt file (offset + slice.length) (totalLength rest) := by rw [total, readAt_drop]
    rw [length_readAt, total] at complete
    have first := fits slice (List.mem_cons_self ..)
    rw [Fits] at first
    have head : (readAt file offset slice.length).length = slice.length := by
      rw [length_readAt]
      omega
    have length : (writeAt memory slice.start (readAt file offset slice.length)).length = memory.length :=
      length_writeAt_within (by omega)
    have fitsRest : ∀ other ∈ rest, Fits (writeAt memory slice.start (readAt file offset slice.length)) other := by
      intro other inRest
      rw [Fits, length]
      exact fits other (List.mem_cons_of_mem _ inRest)
    obtain ⟨away, disjoint⟩ := List.pairwise_cons.mp disjoint
    rw [scatter, taken, dropped]
    rcases List.mem_cons.mp member with rfl | later
    · rw [readAt_scatter_apart fitsRest]
      · have written := readAt_of_holds (holds_writeAt memory slice.start (readAt file offset slice.length))
        rwa [head] at written
      · intro other inRest
        rw [← map_snd_spread (offset + slice.length) rest] at inRest
        obtain ⟨part, listed, rfl⟩ := List.mem_map.mp inRest
        exact away part listed
    · refine ih fitsRest ?_ disjoint later
      rw [length_readAt]
      omega

end KVTiering.Soundness
