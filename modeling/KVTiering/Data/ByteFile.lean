import Mathlib.Algebra.Notation.Defs
import Mathlib.Data.List.Basic

/-! # Flat files of cells

A file is the list of its cells. Writing past its end fills the gap with zeros, and reading stops at its
end. `Holds` says what a stretch of a file contains; a write keeps what a stretch holds when it agrees
with it where the two overlap.
-/

namespace KVTiering

variable {β : Type*}

/-- `pread(count, offset)`. -/
def readAt (file : List β) (offset count : ℕ) : List β := (file.drop offset).take count

/-- `pwrite(data, offset)`; writing nothing does not extend the file. -/
def writeAt [Zero β] (file : List β) (offset : ℕ) (data : List β) : List β :=
  if data.isEmpty then file
  else file.take offset ++ List.replicate (offset - file.length) 0 ++ data ++ file.drop (offset + data.length)

/-- The cells from `offset` on are `data`. -/
def Holds (file : List β) (offset : ℕ) (data : List β) : Prop :=
  ∀ ⦃i : ℕ⦄ ⦃cell : β⦄, data[i]? = some cell → file[offset + i]? = some cell

theorem holds_append {file : List β} {offset : ℕ} {first second : List β} :
    Holds file offset (first ++ second) ↔ Holds file offset first ∧ Holds file (offset + first.length) second := by
  constructor
  · intro holds
    refine ⟨fun i cell found => holds ?_, fun i cell found => ?_⟩
    · rwa [List.getElem?_append_left (List.getElem?_eq_some_iff.mp found).1]
    · rw [Nat.add_assoc]
      apply holds
      rwa [List.getElem?_append_right (by omega), Nat.add_sub_cancel_left]
  · rintro ⟨left, right⟩ i cell found
    by_cases early : i < first.length
    · exact left (by rwa [List.getElem?_append_left early] at found)
    · rw [List.getElem?_append_right (by omega)] at found
      have later := right found
      rwa [Nat.add_assoc, Nat.add_sub_cancel' (by omega)] at later

theorem getElem?_readAt (file : List β) (offset count i : ℕ) :
    (readAt file offset count)[i]? = if i < count then file[offset + i]? else none := by
  rw [readAt, List.getElem?_take]
  split
  · rw [List.getElem?_drop]
  · rfl

theorem length_readAt (file : List β) (offset count : ℕ) :
    (readAt file offset count).length = min count (file.length - offset) := by
  rw [readAt, List.length_take, List.length_drop]

theorem readAt_take (file : List β) (offset first second : ℕ) :
    (readAt file offset (first + second)).take first = readAt file offset first := by
  rw [readAt, List.take_take, readAt, Nat.min_eq_left (Nat.le_add_right _ _)]

theorem readAt_drop (file : List β) (offset first second : ℕ) :
    (readAt file offset (first + second)).drop first = readAt file (offset + first) second := by
  rw [readAt, List.drop_take, List.drop_drop, readAt, Nat.add_sub_cancel_left]

/-- What is read is held. -/
theorem holds_readAt (file : List β) (offset count : ℕ) : Holds file offset (readAt file offset count) := by
  intro i cell found
  rw [getElem?_readAt] at found
  split at found
  · exact found
  · cases found

/-- What is held is read. -/
theorem readAt_of_holds {file : List β} {offset : ℕ} {data : List β} (holds : Holds file offset data) :
    readAt file offset data.length = data := by
  apply List.ext_getElem?
  intro i
  rw [getElem?_readAt]
  split
  · next inside =>
    rw [List.getElem?_eq_getElem inside]
    exact holds (List.getElem?_eq_getElem inside)
  · next outside => rw [List.getElem?_eq_none (by omega)]

/-- What is held determines a shorter read. -/
theorem Holds.getElem?_readAt {file : List β} {offset count i : ℕ} {data : List β} {cell : β}
    (holds : Holds file offset data) (long : i < data.length)
    (found : (readAt file offset count)[i]? = some cell) : data[i]? = some cell := by
  have held := holds (List.getElem?_eq_getElem long)
  rw [List.getElem?_eq_getElem long, ← held]
  exact holds_readAt file offset count found

theorem Holds.take {file : List β} {offset : ℕ} {data : List β} (holds : Holds file offset data) (count : ℕ) :
    Holds file offset (data.take count) := by
  intro i cell found
  rw [List.getElem?_take] at found
  split at found
  · exact holds found
  · cases found

section Write

variable [Zero β]

theorem getElem?_writeAt_inside (file : List β) {offset position : ℕ} {data : List β} (after : offset ≤ position)
    (before : position < offset + data.length) :
    (writeAt file offset data)[position]? = data[position - offset]? := by
  have some : data.isEmpty = false := by
    cases data with
    | nil => simp at before; omega
    | cons => rfl
  have prefixed : (file.take offset ++ List.replicate (offset - file.length) 0).length = offset := by
    rw [List.length_append, List.length_take, List.length_replicate]
    omega
  rw [writeAt, some, if_neg (by decide), List.getElem?_append_left (by rw [List.length_append, prefixed]; omega),
    List.getElem?_append_right (by omega), prefixed]

theorem getElem?_writeAt_outside {file : List β} {offset position : ℕ} {data : List β}
    (inFile : position < file.length) (outside : position < offset ∨ offset + data.length ≤ position) :
    (writeAt file offset data)[position]? = file[position]? := by
  rw [writeAt]
  split
  · rfl
  · have prefixed : (file.take offset ++ List.replicate (offset - file.length) 0).length = offset := by
      rw [List.length_append, List.length_take, List.length_replicate]
      omega
    rcases outside with early | late
    · rw [List.append_assoc, List.append_assoc, List.getElem?_append_left (by rw [List.length_take]; omega),
        List.getElem?_take_of_lt early]
    · have written : (file.take offset ++ List.replicate (offset - file.length) 0 ++ data).length =
          offset + data.length := by rw [List.length_append, prefixed]
      rw [List.getElem?_append_right (by omega), written, List.getElem?_drop, Nat.add_sub_cancel' late]

theorem length_writeAt (file : List β) (offset : ℕ) (data : List β) : (writeAt file offset data).length =
    if data = [] then file.length else max file.length (offset + data.length) := by
  rw [writeAt]
  simp only [List.isEmpty_iff]
  split
  · rfl
  · simp only [List.length_append, List.length_take, List.length_replicate, List.length_drop]
    omega

/-- Every cell after a write. -/
theorem getElem?_writeAt (file : List β) (offset : ℕ) (data : List β) (position : ℕ) :
    (writeAt file offset data)[position]? =
      if offset ≤ position ∧ position < offset + data.length then data[position - offset]?
      else if position < file.length then file[position]?
      else if data ≠ [] ∧ position < offset then some 0
      else none := by
  split_ifs with inside inFile gap
  · exact getElem?_writeAt_inside file inside.1 inside.2
  · exact getElem?_writeAt_outside inFile (by omega)
  · obtain ⟨some, early⟩ := gap
    rw [writeAt, if_neg (by simpa using some), List.append_assoc, List.append_assoc,
      List.getElem?_append_right (by rw [List.length_take]; omega),
      List.getElem?_append_left (by rw [List.length_take, List.length_replicate]; omega),
      List.getElem?_replicate, if_pos (by rw [List.length_take]; omega)]
  · rw [List.getElem?_eq_none]
    rw [length_writeAt]
    split
    · omega
    · next some =>
      simp only [some, not_false_eq_true, ne_eq, true_and] at gap
      omega

@[simp] theorem writeAt_nil (file : List β) (offset : ℕ) : writeAt file offset [] = file := rfl

/-- The first write to an empty file. -/
theorem nil_writeAt (data : List β) : writeAt [] 0 data = data := by
  cases data <;> simp [writeAt]

/-- A write in two parts. -/
theorem writeAt_append (file : List β) (offset : ℕ) (first second : List β) :
    writeAt file offset (first ++ second) = writeAt (writeAt file offset first) (offset + first.length) second := by
  rcases eq_or_ne first [] with rfl | some
  · rfl
  · have whole : first ++ second ≠ [] := List.append_ne_nil_of_left_ne_nil some second
    apply List.ext_getElem?
    intro position
    simp only [getElem?_writeAt, length_writeAt, List.length_append, if_neg some, List.getElem?_append]
    grind

/-- Writes to disjoint ranges commute. -/
theorem writeAt_comm {file : List β} {offset start : ℕ} {data written : List β}
    (apart : offset + data.length ≤ start ∨ start + written.length ≤ offset) :
    writeAt (writeAt file offset data) start written = writeAt (writeAt file start written) offset data := by
  rcases eq_or_ne data [] with rfl | some
  · rfl
  rcases eq_or_ne written [] with rfl | some'
  · rfl
  apply List.ext_getElem?
  intro position
  simp only [getElem?_writeAt, length_writeAt, if_neg some, if_neg some']
  grind

/-- A write is held afterwards. -/
theorem holds_writeAt (file : List β) (offset : ℕ) (data : List β) : Holds (writeAt file offset data) offset data := by
  intro i cell found
  have inside := (List.getElem?_eq_some_iff.mp found).1
  rw [getElem?_writeAt_inside file (by omega) (by omega), Nat.add_sub_cancel_left, found]

/-- A stretch keeps what it holds when a write agrees with it where they overlap. -/
theorem Holds.writeAt {file : List β} {offset start : ℕ} {data written : List β} (holds : Holds file start data)
    (agrees : ∀ ⦃i j : ℕ⦄ ⦃cell other : β⦄, written[i]? = some cell → data[j]? = some other →
      offset + i = start + j → cell = other) : Holds (writeAt file offset written) start data := by
  intro j other found
  have before := holds found
  by_cases overlap : offset ≤ start + j ∧ start + j < offset + written.length
  · obtain ⟨after, inside⟩ := overlap
    rw [getElem?_writeAt_inside file after inside]
    have bound : start + j - offset < written.length := by omega
    rw [List.getElem?_eq_getElem bound]
    exact congrArg some (agrees (List.getElem?_eq_getElem bound) found (by omega))
  · rw [getElem?_writeAt_outside (List.getElem?_eq_some_iff.mp before).1 (by omega)]
    exact before

/-- Writing within a file does not change its length. -/
theorem length_writeAt_within {file : List β} {offset : ℕ} {data : List β}
    (within : offset + data.length ≤ file.length) : (writeAt file offset data).length = file.length := by
  rw [writeAt]
  split
  · rfl
  · simp only [List.length_append, List.length_take, List.length_replicate, List.length_drop]
    omega

end Write

end KVTiering
