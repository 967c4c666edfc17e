import KVTiering.Machine.Simulation
import KVTiering.Model.StoreThreads
import KVTiering.Soundness.SharedStore
import Mathlib.Algebra.Order.BigOperators.Group.Finset
import Mathlib.Data.Fintype.Prod

/-! # The locks of the segment stores

At most one thread of a process is inside a locked method, and at most one process holds the file lock. The thread
lock is always taken first, so no two threads wait for each other: as long as a method is running somewhere some
thread can take a step, and the methods running end after a bounded number of them, however they are scheduled.
-/

namespace KVTiering.Soundness.StoreThreads

open Model Model.StoreThreads

variable {ι θ : Type} [DecidableEq ι] [DecidableEq θ] {c d : StoreThreads ι θ} {process : ι} {thread : θ}

theorem holdsThreadLock_of_holdsFileLock {place : StoreThread} (holds : place.holdsFileLock = true) :
    place.holdsThreadLock = true := by
  cases place <;> simp_all [StoreThread.holdsFileLock, StoreThread.holdsThreadLock]

/-! ### How a step changes places and locks -/

/-- A step of one thread to another place: each lock is kept, taken while it was free, or given back. -/
structure Shift (c : StoreThreads ι θ) (process : ι) (thread : θ) (target : StoreThread) (d : StoreThreads ι θ) :
    Prop where
  threads : d.threads = Function.update c.threads process (Function.update (c.threads process) thread target)
  threadLock :
    (target.holdsThreadLock = (c.threads process thread).holdsThreadLock ∧ d.threadLock = c.threadLock) ∨
      (c.threadLock process = none ∧ target.holdsThreadLock = true ∧
        d.threadLock = Function.update c.threadLock process (some thread)) ∨
      ((c.threads process thread).holdsThreadLock = true ∧ target.holdsThreadLock = false ∧
        d.threadLock = Function.update c.threadLock process none)
  fileLock :
    (target.holdsFileLock = (c.threads process thread).holdsFileLock ∧ d.fileLock = c.fileLock) ∨
      (c.fileLock = none ∧ target.holdsFileLock = true ∧ d.fileLock = some process) ∨
      ((c.threads process thread).holdsFileLock = true ∧ target.holdsFileLock = false ∧ d.fileLock = none)

theorem shift_of_acts {action : StatementAction}
    (acted : Acts c process thread (c.threads process thread) action d) :
    ∃ target, Shift c process thread target d := by
  generalize here : c.threads process thread = source at acted
  cases acted with
  | acquireRead free => exact ⟨_, rfl, .inr (.inl ⟨free, rfl, rfl⟩), .inl ⟨by rw [here]; rfl, rfl⟩⟩
  | acquireWrite free => exact ⟨_, rfl, .inr (.inl ⟨free, rfl, rfl⟩), .inl ⟨by rw [here]; rfl, rfl⟩⟩
  | lockPrepare free => exact ⟨_, rfl, .inl ⟨by rw [here]; rfl, rfl⟩, .inr (.inl ⟨free, rfl, rfl⟩)⟩
  | lockComplete free => exact ⟨_, rfl, .inl ⟨by rw [here]; rfl, rfl⟩, .inr (.inl ⟨free, rfl, rfl⟩)⟩
  | lockDelete free => exact ⟨_, rfl, .inl ⟨by rw [here]; rfl, rfl⟩, .inr (.inl ⟨free, rfl, rfl⟩)⟩
  | quiet moved =>
    refine ⟨_, rfl, .inl ⟨?_, rfl⟩, .inl ⟨?_, rfl⟩⟩ <;> rw [here] <;> cases moved <;> rfl
  | unlockFile => exact ⟨_, rfl, .inl ⟨by rw [here]; rfl, rfl⟩, .inr (.inr ⟨by rw [here]; rfl, rfl, rfl⟩)⟩
  | release => exact ⟨_, rfl, .inr (.inr ⟨by rw [here]; rfl, rfl, rfl⟩), .inl ⟨by rw [here]; rfl, rfl⟩⟩
  | _ => exact ⟨_, rfl, .inl ⟨by rw [here]; rfl, rfl⟩, .inl ⟨by rw [here]; rfl, rfl⟩⟩

/-- A call that is accepted waits for the thread lock, or it is over. -/
theorem call_cases {operation : StoreOperation} (called : c.call process thread operation = some d) :
    d = c.goto process thread (.entering operation) ∨ ∃ result, d = c.leave process thread result := by
  unfold call at called
  split at called
  all_goals
    repeat' split at called
    all_goals cases called
    all_goals first
      | exact .inl rfl
      | exact .inr ⟨_, rfl⟩

theorem shift_of_call {operation : StoreOperation} (outside : (c.threads process thread).isOutside = true)
    (called : c.call process thread operation = some d) : ∃ target, Shift c process thread target d := by
  generalize here : c.threads process thread = source at outside
  cases source with
  | outside last =>
    rcases call_cases called with rfl | ⟨result, rfl⟩
    · exact ⟨_, rfl, .inl ⟨by rw [here]; rfl, rfl⟩, .inl ⟨by rw [here]; rfl, rfl⟩⟩
    · exact ⟨_, rfl, .inl ⟨by rw [here]; rfl, rfl⟩, .inl ⟨by rw [here]; rfl, rfl⟩⟩
  | _ => cases outside

/-! ### Mutual exclusion -/

/-- The locks are held by exactly those threads that are inside the sections they guard. -/
structure Locked (c : StoreThreads ι θ) : Prop where
  thread : ∀ process thread, (c.threads process thread).holdsThreadLock = true ↔ c.threadLock process = some thread
  file : ∀ process, c.fileLock = some process ↔ ∃ thread, (c.threads process thread).holdsFileLock = true

theorem Locked.shift (locked : Locked c) {target : StoreThread} (shift : Shift c process thread target d) :
    Locked d := by
  obtain ⟨threads, threadLock, fileLock⟩ := shift
  have place : ∀ other another, d.threads other another =
      if other = process ∧ another = thread then target else c.threads other another := by
    intro other another
    rw [threads]
    by_cases same : other = process
    · subst same
      by_cases also : another = thread <;> simp [also]
    · simp [same]
  constructor
  · intro other another
    rw [place]
    by_cases same : other = process
    · subst same
      by_cases also : another = thread
      · subst also
        rw [if_pos ⟨rfl, rfl⟩]
        rcases threadLock with ⟨kept, same⟩ | ⟨_, taken, same⟩ | ⟨_, given, same⟩
        · rw [kept, same, locked.thread]
        · simp [taken, same]
        · simp [given, same]
      · rw [if_neg (by simp [also]), locked.thread]
        rcases threadLock with ⟨_, same⟩ | ⟨free, _, same⟩ | ⟨held, _, same⟩
        · rw [same]
        · simp [same, free, Ne.symm also]
        · simp [same, (locked.thread _ _).mp held, Ne.symm also]
    · rw [if_neg (by simp [same]), locked.thread]
      rcases threadLock with ⟨_, kept⟩ | ⟨_, _, kept⟩ | ⟨_, _, kept⟩ <;> simp [kept, same]
  · intro other
    -- the only thread of a process that can hold the file lock is the one that holds the thread lock
    have alone : ∀ another, (c.threads process thread).holdsFileLock = true →
        (c.threads process another).holdsFileLock = true → another = thread := by
      intro another first second
      have one := (locked.thread _ _).mp (holdsThreadLock_of_holdsFileLock first)
      have two := (locked.thread _ _).mp (holdsThreadLock_of_holdsFileLock second)
      exact Option.some.inj (two.symm.trans one)
    rcases fileLock with ⟨kept, same⟩ | ⟨free, taken, same⟩ | ⟨held, given, same⟩
    · rw [same, locked.file]
      apply exists_congr
      intro another
      rw [place]
      split
      · next both => rw [both.1, both.2, kept]
      · rfl
    · have nobody : ∀ process thread, (c.threads process thread).holdsFileLock ≠ true := by
        intro process thread holds
        have one := (locked.file process).mpr ⟨thread, holds⟩
        rw [free] at one
        cases one
      rw [same]
      constructor
      · rintro ⟨rfl⟩
        exact ⟨thread, by rw [place, if_pos ⟨rfl, rfl⟩, taken]⟩
      · rintro ⟨another, holds⟩
        rw [place] at holds
        split at holds
        · next both => rw [both.1]
        · exact absurd holds (nobody _ _)
    · have owner := (locked.file process).mpr ⟨thread, held⟩
      rw [same]
      refine ⟨fun one => (by cases one), fun ⟨another, holds⟩ => ?_⟩
      rw [place] at holds
      split at holds
      · rw [given] at holds
        cases holds
      · next apart =>
        have one := (locked.file other).mpr ⟨another, holds⟩
        obtain rfl := Option.some.inj (one.symm.trans owner)
        exact absurd ⟨rfl, alone another held holds⟩ apart

omit [DecidableEq θ] in
theorem Locked.crash (locked : Locked c) (config : SegmentConfig) : Locked (c.crash process config) := by
  constructor
  · intro other another
    by_cases same : other = process
    · subst same
      simp [StoreThreads.crash, StoreThread.holdsThreadLock]
    · simpa [StoreThreads.crash, same] using locked.thread other another
  · intro other
    by_cases same : other = process
    · subst same
      simp [StoreThreads.crash, StoreThread.holdsFileLock]
    · simp only [StoreThreads.crash, Function.update_of_ne same]
      rw [← locked.file other]
      split
      · next owner => simp [owner, Ne.symm same]
      · rfl

omit [DecidableEq ι] [DecidableEq θ] in
theorem locked_init (db : Database) (config : ι → SegmentConfig) : Locked (init db config : StoreThreads ι θ) :=
  ⟨fun _ _ => by simp [init, StoreThread.holdsThreadLock], fun _ => by simp [init, StoreThread.holdsFileLock]⟩

theorem Locked.step (locked : Locked c) {event : StatementEvent ι θ} (moved : c.step event = some d) : Locked d := by
  cases event with
  | call process thread operation =>
    simp only [StoreThreads.step] at moved
    split at moved
    · next outside =>
      obtain ⟨_, shift⟩ := shift_of_call outside moved
      exact locked.shift shift
    · cases moved
  | act process thread action =>
    obtain ⟨_, shift⟩ := shift_of_acts (acts_of_act moved)
    exact locked.shift shift
  | crash process config =>
    cases moved
    exact locked.crash config

theorem locked_of_run {db : Database} {config : ι → SegmentConfig} {events : List (StatementEvent ι θ)}
    (run : Run (Steps StoreThreads.step) (init db config) events c) : Locked c :=
  run.preserves Locked (locked_init db config) fun _ _ _ _ locked moved => locked.step moved

/-! ### Progress -/

theorem length_chunks_le {α : Type*} (values : List α) : (chunks values).length ≤ values.length := by
  simp only [chunks, slices, List.length_map, List.length_range]
  have positive : 0 < indexBatchSize := by decide
  rw [Nat.div_le_iff_le_mul_add_pred positive]
  have := Nat.le_mul_of_pos_left values.length positive
  omega

theorem length_eraseDups_le {α : Type*} [BEq α] (values : List α) :
    values.eraseDups.length ≤ values.length := by
  induction size : values.length using Nat.strongRecOn generalizing values with
  | ind n ih =>
    cases values with
    | nil => simp
    | cons head tail =>
      have shorter := List.length_filter_le (fun value => !value == head) tail
      simp only [List.length_cons] at size
      rw [List.eraseDups_cons, List.length_cons]
      have := ih _ (by omega) (tail.filter fun value => !value == head) rfl
      omega

/-- A bound on the statements that a thread still has to run in its method. -/
def remaining : StoreThread → ℕ
  | .outside _ => 0
  | .entering (.getLocations keys) => keys.length + 3
  | .entering (.write (.prepareStore keys _)) => keys.length + 7
  | .entering (.write (.completeStore plan _)) => plan.entries.length + 6
  | .entering (.write (.delete keys)) => keys.length + 7
  | .locking (.prepareStore keys _) => keys.length + 6
  | .locking (.completeStore plan _) => plan.entries.length + 5
  | .locking (.delete keys) => keys.length + 6
  | .selecting _ _ chunks => chunks.length + 2
  | .preparing _ _ _ chunks => chunks.length + 5
  | .allocating .. => 4
  | .reserving .. => 3
  | .indexing plan => plan.entries.length + 4
  | .readingBack chunks _ => chunks.length + 3
  | .finding _ _ chunks => chunks.length + 5
  | .deleting .. => 4
  | .forgetting _ => 3
  | .unlocking _ => 2
  | .releasing _ => 1

theorem length_missing_le (store : SegmentStore) (keys : List OffloadKey) :
    (chunks (store.missingKeys keys)).length ≤ keys.length :=
  (length_chunks_le _).trans (List.length_filter_le _ _)

/-- A step of a thread is one of the statements that it still had to run. -/
theorem remaining_lt {action : StatementAction}
    (acted : Acts c process thread (c.threads process thread) action d) :
    ∃ target, d.threads = Function.update c.threads process (Function.update (c.threads process) thread target) ∧
      remaining target < remaining (c.threads process thread) := by
  generalize c.threads process thread = source at acted
  cases acted with
  | quiet moved =>
    refine ⟨_, rfl, ?_⟩
    cases moved with
    | @lockRaised operation => cases operation <;> simp [remaining]
    | _ => simp [remaining]
  | @acquireRead keys _ =>
    refine ⟨_, rfl, ?_⟩
    have := length_missing_le (c.store process) keys
    simp only [remaining]
    omega
  | @lockPrepare keys _ _ =>
    refine ⟨_, rfl, ?_⟩
    have := length_missing_le (c.store process) keys
    simp only [remaining]
    omega
  | @acquireWrite operation _ =>
    refine ⟨_, rfl, ?_⟩
    cases operation <;> simp [remaining]
  | @lockDelete keys _ =>
    refine ⟨_, rfl, ?_⟩
    have := (length_chunks_le keys.eraseDups).trans (length_eraseDups_le keys)
    simp only [remaining]
    omega
  | @index plan =>
    refine ⟨_, rfl, ?_⟩
    have := length_missing_le (c.store process) (plan.entries.map SegmentWrite.key)
    simp only [remaining]
    simp only [List.length_map] at this
    omega
  | @indexThenRaise plan read _ =>
    refine ⟨_, rfl, ?_⟩
    have := length_missing_le (c.store process) (plan.entries.map SegmentWrite.key)
    simp only [remaining, List.length_take]
    simp only [List.length_map] at this
    omega
  | _ => exact ⟨_, rfl, by simp [remaining]⟩

/-- A thread in a method can run its next statement, unless it waits for a lock that is not free. -/
theorem exists_act {place : StoreThread} (inside : place.isOutside = false)
    (entering : ∀ operation, place = .entering operation → c.threadLock process = none)
    (locking : ∀ operation, place = .locking operation → c.fileLock = none) :
    ∃ action d, c.act process thread place action = some d := by
  cases place with
  | outside _ => cases inside
  | entering operation =>
    refine ⟨.acquire, ?_⟩
    simp only [act, if_pos (entering operation rfl)]
    cases operation <;> exact ⟨_, rfl⟩
  | locking operation =>
    refine ⟨.lockFile, ?_⟩
    simp only [act, if_pos (locking operation rfl)]
    cases operation <;> exact ⟨_, rfl⟩
  | selecting keys locations chunks => cases chunks <;> exact ⟨.proceed, _, rfl⟩
  | preparing keys blockIds locations chunks =>
    refine ⟨.proceed, ?_⟩
    cases chunks with
    | nil =>
      simp only [act]
      split <;> exact ⟨_, rfl⟩
    | cons chunk rest => exact ⟨_, rfl⟩
  | allocating keys blockIds unique => exact ⟨.proceed, _, rfl⟩
  | reserving keys blockIds plan rows => exact ⟨.commit none, _, rfl⟩
  | indexing plan => exact ⟨.commit none, by simp [act]⟩
  | readingBack chunks raises =>
    cases chunks with
    | nil =>
      cases raises with
      | false => exact ⟨.proceed, _, rfl⟩
      | true => exact ⟨.raise, _, rfl⟩
    | cons chunk rest => exact ⟨.proceed, _, rfl⟩
  | finding keys existing chunks => cases chunks <;> exact ⟨.proceed, _, rfl⟩
  | deleting keys existing => exact ⟨.commit none, _, rfl⟩
  | forgetting existing => exact ⟨.proceed, _, rfl⟩
  | unlocking result => exact ⟨.unlockFile, _, rfl⟩
  | releasing result => exact ⟨.release, _, rfl⟩

/-- A step of one of the threads: no method is called, and no process is killed. -/
def Acting (c : StoreThreads ι θ) (event : StatementEvent ι θ) (d : StoreThreads ι θ) : Prop :=
  (∃ process thread action, event = .act process thread action) ∧ c.step event = some d

/-- As long as some thread is in a method, some thread can run its next statement: the one that holds the file lock,
else one that holds the thread lock of its process, else one that waits for it. -/
theorem exists_acting (locked : Locked c) (inside : (c.threads process thread).isOutside = false) :
    ∃ event d, Acting c event d := by
  have go : ∀ process thread, (c.threads process thread).isOutside = false →
      (∀ operation, c.threads process thread = .entering operation → c.threadLock process = none) →
      (∀ operation, c.threads process thread = .locking operation → c.fileLock = none) →
      ∃ event d, Acting c event d := by
    intro process thread inside entering locking
    obtain ⟨action, d, (acted : c.act process thread _ action = some d)⟩ := exists_act inside entering locking
    exact ⟨.act process thread action, d, ⟨_, _, _, rfl⟩, acted⟩
  cases owner : c.fileLock with
  | some holder =>
    obtain ⟨another, holds⟩ := (locked.file holder).mp owner
    refine go holder another ?_ ?_ ?_
    · generalize c.threads holder another = place at holds
      cases place <;> simp_all [StoreThread.holdsFileLock, StoreThread.isOutside]
    · intro operation same
      simp [same, StoreThread.holdsFileLock] at holds
    · intro operation same
      simp [same, StoreThread.holdsFileLock] at holds
  | none =>
    cases taken : c.threadLock process with
    | none => exact go process thread inside (fun _ _ => taken) fun _ _ => owner
    | some another =>
      have holds := (locked.thread process another).mpr taken
      refine go process another ?_ ?_ fun _ _ => owner
      · generalize c.threads process another = place at holds
        cases place <;> simp_all [StoreThread.holdsThreadLock, StoreThread.isOutside]
      · intro operation same
        simp [same, StoreThread.holdsThreadLock] at holds

section Finite

variable [Fintype ι] [Fintype θ]

/-- The statements that all threads together still have to run, at most. -/
def outstanding (c : StoreThreads ι θ) : ℕ := ∑ item : ι × θ, remaining (c.threads item.1 item.2)

theorem outstanding_lt {event : StatementEvent ι θ} (acting : Acting c event d) : outstanding d < outstanding c := by
  obtain ⟨⟨process, thread, action, rfl⟩, moved⟩ := acting
  obtain ⟨target, threads, less⟩ := remaining_lt (acts_of_act moved)
  have place : ∀ other another, d.threads other another =
      if other = process ∧ another = thread then target else c.threads other another := by
    intro other another
    rw [threads]
    by_cases same : other = process
    · subst same
      by_cases also : another = thread <;> simp [also]
    · simp [same]
  apply Finset.sum_lt_sum
  · rintro ⟨other, another⟩ _
    dsimp only
    rw [place]
    split
    · next same =>
      obtain ⟨rfl, rfl⟩ := same
      exact less.le
    · exact le_rfl
  · exact ⟨(process, thread), Finset.mem_univ _, by simpa [place] using less⟩

/-- From any state reached, the threads come to the end of all methods that are running, within a number of
statements that does not depend on the schedule. Where no thread has a next statement, every method has returned or
raised, and all locks are free. -/
theorem methods_end {db : Database} {config : ι → SegmentConfig} {events : List (StatementEvent ι θ)}
    (run : Run (Steps StoreThreads.step) (init db config) events c) :
    (∀ more d, Run Acting c more d → more.length ≤ outstanding c) ∧
      (∀ more d, Run Acting c more d → (∀ event next, ¬Acting d event next) →
        (∀ process thread, (d.threads process thread).isOutside = true) ∧ (∀ process, d.threadLock process = none) ∧
          d.fileLock = none) ∧
      ∃ more d, Run Acting c more d ∧ ∀ event next, ¬Acting d event next := by
  have locked := locked_of_run run
  have kept : ∀ source event target, Locked source → Acting source event target →
      Locked (target : StoreThreads ι θ) := fun _ _ _ locked acting => locked.step acting.2
  have lowers : ∀ source event target, Locked source → Acting source event target →
      outstanding target < outstanding (source : StoreThreads ι θ) := fun _ _ _ _ acting => outstanding_lt acting
  refine ⟨fun more d acting => ?_, fun more d acting ended => ?_,
    exists_run_to_end Locked outstanding kept lowers c locked⟩
  · have bound := (acting.length_le_rank Locked outstanding kept lowers locked).1
    omega
  · have locked := (acting.length_le_rank Locked outstanding kept lowers locked).2
    have all : ∀ process thread, (d.threads process thread).isOutside = true := by
      intro process thread
      by_contra inside
      obtain ⟨event, next, moved⟩ := exists_acting locked (Bool.eq_false_iff.mpr inside)
      exact ended event next moved
    have nobody : ∀ process thread, (d.threads process thread).holdsThreadLock = false := by
      intro process thread
      have outside := all process thread
      generalize d.threads process thread = place at outside
      cases place <;> simp_all [StoreThread.isOutside, StoreThread.holdsThreadLock]
    refine ⟨all, fun process => ?_, ?_⟩
    · rw [Option.eq_none_iff_forall_ne_some]
      intro thread taken
      have holds := (locked.thread process thread).mpr taken
      rw [nobody] at holds
      cases holds
    · rw [Option.eq_none_iff_forall_ne_some]
      intro process owner
      obtain ⟨thread, holds⟩ := (locked.file process).mp owner
      have inside := holdsThreadLock_of_holdsFileLock holds
      rw [nobody] at inside
      cases inside

end Finite

/-- One process looks up a key while another one reserves an extent. -/
def overlappingTape : List (StatementEvent Bool Unit) :=
  [.call false () (.write (.prepareStore [[1], [7]] [0, 1])), .act false () .acquire, .act false () .lockFile,
    .act false () .proceed, .call true () (.getLocations [[7], [1]]), .act true () .acquire, .act true () .proceed,
    .act false () .proceed, .act false () .proceed, .act false () (.commit none), .act true () .proceed,
    .act true () .release]

theorem methods_end_overlapping : ∃ c : StoreThreads Bool Unit,
    Run (Steps StoreThreads.step) (init SharedStore.legacyDatabase SharedStore.mixedConfig) overlappingTape c ∧
      outstanding c = 2 ∧ ∃ more d, Run Acting c more d ∧ more.length ≤ 2 ∧ d.fileLock = none := by
  have executed : ((replay StoreThreads.step (init SharedStore.legacyDatabase SharedStore.mixedConfig)
      overlappingTape).map fun c : StoreThreads Bool Unit => outstanding c) = some 2 := by decide
  obtain ⟨c, replayed, left⟩ := Option.map_eq_some_iff.mp executed
  have run := Run.of_replay replayed
  obtain ⟨bounded, free, more, d, acting, ended⟩ := methods_end run
  exact ⟨c, run, left, more, d, acting, left ▸ bounded more d acting, (free more d acting ended).2.2⟩

end KVTiering.Soundness.StoreThreads
