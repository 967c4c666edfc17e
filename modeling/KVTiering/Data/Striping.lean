import Mathlib.Data.List.Range

/-! # Striping items over streams of containers

Items are dealt in turn to a fixed number of streams. Each stream fills containers of a fixed number of
slots, one after the other; the first container of every stream is there from the start, and the others are
numbered in the order in which the streams need them. The place of an item is a closed form in its number,
and so is what a writer has to remember: where each stream stands, and how many containers there are.
-/

namespace KVTiering

structure Striping where
  streams : ℕ
  slots : ℕ
  streams_pos : 0 < streams
  slots_pos : 0 < slots

/-- A counter with a wrapping digit: either the digit grows or it wraps. -/
theorem succ_div_mod {base : ℕ} (positive : 0 < base) (n : ℕ) :
    (n % base + 1 < base ∧ (n + 1) / base = n / base ∧ (n + 1) % base = n % base + 1) ∨
      (n % base + 1 = base ∧ (n + 1) / base = n / base + 1 ∧ (n + 1) % base = 0) := by
  have digit := Nat.mod_lt n positive
  have split := Nat.mod_add_div n base
  rcases Nat.lt_or_ge (n % base + 1) base with grows | wraps
  · refine .inl ⟨grows, (Nat.div_mod_unique positive).mpr ⟨?_, grows⟩⟩
    omega
  · have full : n % base + 1 = base := by omega
    refine .inr ⟨full, (Nat.div_mod_unique positive).mpr ⟨?_, positive⟩⟩
    rw [Nat.mul_succ]
    omega

namespace Striping

variable (striping : Striping)

/-- The number of the `j`-th container of a stream. -/
def container (stream j : ℕ) : ℕ := j * striping.streams + stream

/-- The container and the slot of the `n`-th item. -/
def place (n : ℕ) : ℕ × ℕ :=
  (striping.container (n % striping.streams) (n / striping.streams / striping.slots),
    n / striping.streams % striping.slots)

/-- How many of the first `n` items the stream has been dealt. -/
def load (n stream : ℕ) : ℕ := n / striping.streams + if stream < n % striping.streams then 1 else 0

/-- Where the stream stands after `n` items: its last container, and the slots used there. -/
def cursor (n stream : ℕ) : ℕ × ℕ :=
  if striping.load n stream = 0 then (stream, 0)
  else (striping.container stream ((striping.load n stream - 1) / striping.slots),
    (striping.load n stream - 1) % striping.slots + 1)

/-- The `n`-th item needs a container that its stream does not have yet. -/
def Opens (n : ℕ) : Prop := n / striping.streams ≠ 0 ∧ n / striping.streams % striping.slots = 0

instance (n : ℕ) : Decidable (striping.Opens n) := inferInstanceAs (Decidable (_ ∧ _))

/-- The number of containers after `n` items. -/
def opened (n : ℕ) : ℕ :=
  if n / striping.streams = 0 then striping.streams
  else if n / striping.streams % striping.slots = 0 then
    striping.container (n % striping.streams) (n / striping.streams / striping.slots)
  else striping.container 0 (n / striping.streams / striping.slots + 1)

theorem container_injective {stream stream' j j' : ℕ} (inside : stream < striping.streams)
    (inside' : stream' < striping.streams)
    (same : striping.container stream j = striping.container stream' j') : stream = stream' ∧ j = j' := by
  have left := (Nat.div_mod_unique striping.streams_pos).mpr
    ⟨show stream + striping.streams * j = striping.container stream j by
      rw [container, Nat.mul_comm, Nat.add_comm], inside⟩
  have right := (Nat.div_mod_unique striping.streams_pos).mpr
    ⟨show stream' + striping.streams * j' = striping.container stream' j' by
      rw [container, Nat.mul_comm, Nat.add_comm], inside'⟩
  rw [same] at left
  exact ⟨left.2.symm.trans right.2, left.1.symm.trans right.1⟩

/-! ### Loads -/

@[simp] theorem load_zero (stream : ℕ) : striping.load 0 stream = 0 := by simp [load]

theorem load_turn (n : ℕ) : striping.load n (n % striping.streams) = n / striping.streams := by
  simp [load]

/-- Only the stream whose turn it is gets the next item. -/
theorem load_succ (n : ℕ) {stream : ℕ} (inside : stream < striping.streams) :
    striping.load (n + 1) stream =
      striping.load n stream + if stream = n % striping.streams then 1 else 0 := by
  rcases succ_div_mod striping.streams_pos n with ⟨grows, row, turn⟩ | ⟨wraps, row, turn⟩
  · rw [load, load, row, turn]
    split_ifs <;> omega
  · rw [load, load, row, turn]
    split_ifs <;> omega

/-- No stream is ahead of another by more than one item. -/
theorem load_le_load_succ (n stream stream' : ℕ) :
    striping.load n stream ≤ striping.load n stream' + 1 := by
  unfold load
  split_ifs <;> omega

/-- The load counts the items dealt to the stream. -/
theorem countP_turn (n : ℕ) {stream : ℕ} (inside : stream < striping.streams) :
    (List.range n).countP (fun item => item % striping.streams = stream) = striping.load n stream := by
  induction n with
  | zero => simp
  | succ n ih =>
    rw [List.range_succ, List.countP_append, ih, striping.load_succ n inside, List.countP_singleton]
    simp only [decide_eq_true_eq, eq_comm (a := stream)]

/-! ### The writer's state -/

@[simp] theorem cursor_zero (stream : ℕ) : striping.cursor 0 stream = (stream, 0) := by simp [cursor]

@[simp] theorem opened_zero : striping.opened 0 = striping.streams := by simp [opened]

/-- A stream needs a new container exactly when its last one is full. -/
theorem full_iff (n : ℕ) : striping.slots < (striping.cursor n (n % striping.streams)).2 + 1 ↔
    striping.Opens n := by
  have positive := striping.slots_pos
  unfold cursor Opens
  rw [load_turn]
  cases row : n / striping.streams with
  | zero =>
    simp
    omega
  | succ before =>
    rcases succ_div_mod striping.slots_pos before with ⟨grows, _, digit⟩ | ⟨wraps, _, digit⟩ <;>
      simp [digit] <;> omega

/-- Otherwise the next item goes where its stream stands. -/
theorem cursor_turn (n : ℕ) (room : ¬ striping.Opens n) :
    striping.cursor n (n % striping.streams) = striping.place n := by
  unfold cursor place
  rw [load_turn]
  unfold Opens at room
  cases row : n / striping.streams with
  | zero => simp [container]
  | succ before =>
    rcases succ_div_mod striping.slots_pos before with ⟨_, quotient, digit⟩ | ⟨_, _, digit⟩
    · simp [quotient, digit]
    · exact absurd ⟨by simp [row], by rw [row, digit]⟩ room

/-- A new container gets the next number, and the item its first slot. -/
theorem place_of_opens {n : ℕ} (new : striping.Opens n) : striping.place n = (striping.opened n, 0) := by
  unfold place opened
  rw [if_neg new.1, if_pos new.2, new.2]

theorem opened_succ (n : ℕ) :
    striping.opened (n + 1) = striping.opened n + if striping.Opens n then 1 else 0 := by
  unfold opened Opens container
  rcases succ_div_mod striping.streams_pos n with ⟨grows, row, turn⟩ | ⟨wraps, row, turn⟩
  · rw [row, turn]
    by_cases first : n / striping.streams = 0
    · simp only [first, ↓reduceIte, ne_eq, not_true_eq_false, false_and, Nat.add_zero]
    · by_cases new : n / striping.streams % striping.slots = 0
      · simp only [first, new, ↓reduceIte, ne_eq, not_false_eq_true, and_self]
        omega
      · simp only [first, new, ↓reduceIte, and_false, Nat.add_zero]
  · rw [row, turn, if_neg (Nat.succ_ne_zero _)]
    rcases succ_div_mod striping.slots_pos (n / striping.streams) with
      ⟨more, quotient, digit⟩ | ⟨full, quotient, digit⟩
    · rw [quotient, digit, if_neg (Nat.succ_ne_zero _)]
      by_cases first : n / striping.streams = 0
      · simp [first]
      · by_cases new : n / striping.streams % striping.slots = 0
        · simp only [first, new, ↓reduceIte, ne_eq, not_false_eq_true, and_self, Nat.succ_mul]
          omega
        · simp only [first, new, ↓reduceIte, and_false, Nat.add_zero]
    · rw [quotient, digit, if_pos rfl]
      by_cases first : n / striping.streams = 0
      · simp [first]
      · by_cases new : n / striping.streams % striping.slots = 0
        · simp only [first, new, ↓reduceIte, ne_eq, not_false_eq_true, and_self, Nat.succ_mul]
          omega
        · simp only [first, new, ↓reduceIte, and_false, Nat.add_zero]

/-- The stream of the item moves behind it. -/
theorem cursor_succ_turn (n : ℕ) : striping.cursor (n + 1) (n % striping.streams) =
    ((striping.place n).1, (striping.place n).2 + 1) := by
  have inside := Nat.mod_lt n striping.streams_pos
  unfold cursor place
  rw [striping.load_succ n inside, if_pos rfl, load_turn]
  simp

/-- The other streams stay. -/
theorem cursor_succ_of_ne (n : ℕ) {stream : ℕ} (inside : stream < striping.streams)
    (other : stream ≠ n % striping.streams) : striping.cursor (n + 1) stream = striping.cursor n stream := by
  unfold cursor
  rw [striping.load_succ n inside, if_neg other, Nat.add_zero]

/-- A container that its stream has left is full: each of its slots holds an earlier item. -/
theorem exists_of_left {n stream j slot : ℕ} (turn : n % striping.streams = stream)
    (left : j < n / striping.streams / striping.slots) (inside : slot < striping.slots) :
    ∃ m < n, striping.place m = (striping.container stream j, slot) := by
  have within : stream < striping.streams := turn ▸ Nat.mod_lt n striping.streams_pos
  obtain ⟨row, digit⟩ := (Nat.div_mod_unique striping.slots_pos).mpr
    ⟨show slot + striping.slots * j = _ from rfl, inside⟩
  obtain ⟨number, at_turn⟩ := (Nat.div_mod_unique striping.streams_pos).mpr
    ⟨show stream + striping.streams * (slot + striping.slots * j) = _ from rfl, within⟩
  refine ⟨stream + striping.streams * (slot + striping.slots * j), ?_, ?_⟩
  · have earlier : slot + striping.slots * j < n / striping.streams := by
      have whole := (Nat.le_div_iff_mul_le striping.slots_pos).mp (Nat.succ_le_of_lt left)
      rw [Nat.succ_mul, Nat.mul_comm] at whole
      omega
    have whole := Nat.mul_le_mul_left striping.streams (Nat.succ_le_of_lt earlier)
    rw [Nat.mul_succ] at whole
    have split := Nat.mod_add_div n striping.streams
    omega
  · rw [place, number, at_turn, row, digit]

end Striping

end KVTiering
