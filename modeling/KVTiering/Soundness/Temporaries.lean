import KVTiering.Soundness.BlockFiles

/-! # No temporary file is forgotten

`store_block` makes a temporary file under a name of its own, and either renames it or removes it. So there is one
only while its thread is at it, or since the thread has tried to remove it in vain.
-/

namespace KVTiering.Soundness.BlockFiles

open Model Model.BlockFiles

variable {ι β : Type} {number : ι → ℕ} {blockSize : ℕ} {s s' : BlockFiles ι β} {thread : ι}

/-- The temporary file is made, and neither renamed nor removed. -/
def hasTemporary : StorePoint → Bool
  | .pathExists => false
  | .makedirs => false
  | .openTemporary => false
  | _ => true

/-- The thread is storing the block, and has a temporary file to rename or remove. -/
def AtIt (s : BlockFiles ι β) (thread : ι) (path : BlockPath) : Prop :=
  ∃ call point, s.threads thread = .storing call point ∧ call.path = path ∧ hasTemporary point = true

/-- The thread has tried to remove the temporary file in vain, and it has been there ever since. -/
def LeftBehind [DecidableEq ι] [DecidableEq β] (number : ι → ℕ) (blockSize : ℕ) (start : BlockFiles ι β)
    (events : List (BlockEvent ι β)) (thread : ι) (path : BlockPath) : Prop :=
  ∃ before after transferred source call, events = before ++ .systemCall thread (.failed transferred) :: after ∧
    Run (Steps (Model.BlockFiles.step number blockSize)) start before source ∧
    source.threads thread = .storing call .removeTemporary ∧ call.path = path ∧
    ∀ more state, more <+: after → Run (Steps (Model.BlockFiles.step number blockSize)) start
      (before ++ .systemCall thread (.failed transferred) :: more) state →
      state.paths (path.tmpPath (number thread)) ≠ none

/-! ## Steps -/

theorem paths_of_rename {source dest other : String} (renamed : s.rename source dest = some s')
    (differ : other ≠ dest) : s'.paths other = if other = source then none else s.paths other := by
  obtain ⟨file, -, rfl⟩ := Option.map_eq_some_iff.mp renamed
  change Function.update (Function.update s.paths source none) dest (some file) other = _
  rw [Function.update_of_ne differ, Function.update_apply]

theorem threads_of_rename {source dest : String} (renamed : s.rename source dest = some s') :
    s'.threads = s.threads := by
  obtain ⟨file, -, rfl⟩ := Option.map_eq_some_iff.mp renamed
  rfl

/-- A removal makes no path. -/
theorem paths_of_remove {name other : String} (removed : s.remove name = some s') (there : s'.paths other ≠ none) :
    s.paths other ≠ none ∧ other ≠ name := by
  obtain rfl := remove_eq removed
  change Function.update s.paths name none other ≠ none at there
  by_cases same : other = name
  · rw [same, Function.update_self] at there
    exact absurd rfl there
  · rw [Function.update_of_ne same] at there
    exact ⟨there, same⟩

variable [DecidableEq ι]

theorem threads_goto (s : BlockFiles ι β) (place : BlockThread β) : (s.goto thread place).threads thread = place :=
  Function.update_self ..

theorem threads_goto_of_ne (s : BlockFiles ι β) (place : BlockThread β) {other : ι} (differ : other ≠ thread) :
    (s.goto thread place).threads other = s.threads other := Function.update_of_ne differ ..

theorem atIt_goto {call : BlockCall β} {point : StorePoint} (made : hasTemporary point = true) :
    AtIt (s.goto thread (.storing call point)) thread call.path := ⟨call, point, threads_goto .., rfl, made⟩

/-- What a step of `store_block` does to temporary files: it makes none but its own, and its own one is either gone or
still to be dealt with, unless it could not be removed. -/
structure Deals (number : ι → ℕ) (s s' : BlockFiles ι β) (thread : ι) (call : BlockCall β) (point : StorePoint)
    (outcome : SystemOutcome) : Prop where
  others : ∀ other, other ≠ thread → s'.threads other = s.threads other
  makes : ∀ (path : BlockPath) (n : ℕ), s'.paths (path.tmpPath n) ≠ none → s.paths (path.tmpPath n) ≠ none ∨
    path = call.path ∧ n = number thread ∧ AtIt s' thread call.path
  leaves : hasTemporary point = true → s'.paths (call.path.tmpPath (number thread)) ≠ none →
    AtIt s' thread call.path ∨ point = .removeTemporary ∧ ∃ transferred, outcome = .failed transferred

/-- A step that leaves the paths alone, or makes the temporary file. -/
theorem Deals.goto {middle : BlockFiles ι β} {call : BlockCall β} {point next : StorePoint} {outcome : SystemOutcome}
    (threads : middle.threads = s.threads) (paths : middle.paths = s.paths)
    (made : hasTemporary point = true → hasTemporary next = true) :
    Deals number s (middle.goto thread (.storing call next)) thread call point outcome where
  others other differ := by rw [threads_goto_of_ne _ _ differ, threads]
  makes path n there := .inl (by rwa [← paths])
  leaves ahead _ := .inl (atIt_goto (made ahead))

theorem Deals.ends {place : BlockThread β} {call : BlockCall β} {point : StorePoint} {outcome : SystemOutcome}
    (early : hasTemporary point = false ∨ point = .removeTemporary ∧ ∃ transferred, outcome = .failed transferred) :
    Deals number s (s.goto thread place) thread call point outcome where
  others other differ := threads_goto_of_ne _ _ differ
  makes path n there := .inl there
  leaves ahead _ := .inr (early.resolve_left (by simp [ahead]))

theorem Deals.create {call : BlockCall β} {point next : StorePoint} {outcome : SystemOutcome}
    (made : hasTemporary next = true) :
    Deals number s ((s.create (call.path.tmpPath (number thread))).goto thread (.storing call next)) thread call point
      outcome where
  others other differ := threads_goto_of_ne _ _ differ
  makes path n there := by
    by_cases own : path.tmpPath n = call.path.tmpPath (number thread)
    · obtain ⟨rfl, rfl⟩ := tmpPath_injective own
      exact .inr ⟨rfl, rfl, atIt_goto made⟩
    · left
      change Function.update s.paths _ _ _ ≠ none at there
      rwa [Function.update_of_ne own] at there
  leaves _ _ := .inl (atIt_goto made)

/-- The temporary file goes. -/
theorem Deals.gone {middle : BlockFiles ι β} {place : BlockThread β} {call : BlockCall β} {point : StorePoint}
    {outcome : SystemOutcome} (threads : middle.threads = s.threads)
    (gone : middle.paths (call.path.tmpPath (number thread)) = none)
    (kept : ∀ (path : BlockPath) (n : ℕ), middle.paths (path.tmpPath n) ≠ none → s.paths (path.tmpPath n) ≠ none) :
    Deals number s (middle.goto thread place) thread call point outcome where
  others other differ := by rw [threads_goto_of_ne _ _ differ, threads]
  makes path n there := .inl (kept path n there)
  leaves _ there := absurd gone there

theorem storeStep_deals {call : BlockCall β} {point : StorePoint} {outcome : SystemOutcome}
    (moved : s.storeStep number blockSize thread call point outcome = some s') :
    Deals number s s' thread call point outcome := by
  cases point with
  | pathExists | makedirs =>
    cases outcome <;>
      (obtain rfl := Option.some.inj moved; exact .ends (.inl rfl))
  | openTemporary =>
    cases outcome with
    | completed =>
      obtain ⟨-, same⟩ := Option.ite_none_right_eq_some.mp moved
      obtain rfl := Option.some.inj same
      exact .create rfl
    | failed =>
      simp only [Model.BlockFiles.storeStep] at moved
      split at moved
      · obtain rfl := Option.some.inj moved
        exact .create rfl
      · obtain rfl := Option.some.inj moved
        exact .ends (.inl rfl)
  | write fd =>
    cases outcome <;>
      (obtain rfl := Option.some.inj moved; exact .goto rfl rfl fun _ => rfl)
  | close fd whole =>
    cases outcome with
    | completed =>
      obtain rfl := Option.some.inj moved
      exact .goto rfl rfl fun _ => by cases whole <;> rfl
    | failed =>
      obtain rfl := Option.some.inj moved
      exact .goto rfl rfl fun _ => rfl
  | replace =>
    cases outcome with
    | completed =>
      obtain ⟨middle, renamed, rfl⟩ := Option.map_eq_some_iff.mp moved
      have others := fun (path : BlockPath) n => paths_of_rename renamed (name_ne_tmpPath call.path path n).symm
      refine .gone (threads_of_rename renamed) ?_ fun path n there => ?_
      · rw [others, if_pos rfl]
      · rw [others] at there
        split at there
        · exact absurd rfl there
        · exact there
    | failed =>
      obtain rfl := Option.some.inj moved
      exact .goto rfl rfl fun _ => rfl
  | removeTemporary =>
    cases outcome with
    | completed =>
      obtain ⟨middle, removed, rfl⟩ := Option.map_eq_some_iff.mp moved
      refine .gone (threads_remove removed) ?_ fun path n there => (paths_of_remove removed there).1
      by_contra there
      exact (paths_of_remove removed there).2 rfl
    | failed transferred =>
      obtain rfl := Option.some.inj moved
      exact .ends (.inr ⟨rfl, transferred, rfl⟩)

variable [DecidableEq β]

theorem loadStep_keeps {call : BlockCall β} {point : LoadPoint} {outcome : SystemOutcome}
    (moved : s.loadStep blockSize thread call point outcome = some s') :
    (∀ other, other ≠ thread → s'.threads other = s.threads other) ∧
      ∀ (path : BlockPath) (n : ℕ), s'.paths (path.tmpPath n) ≠ none → s.paths (path.tmpPath n) ≠ none := by
  have stays : ∀ place (middle : BlockFiles ι β), middle.threads = s.threads → middle.paths = s.paths →
      s' = middle.goto thread place → (∀ other, other ≠ thread → s'.threads other = s.threads other) ∧
      ∀ (path : BlockPath) (n : ℕ), s'.paths (path.tmpPath n) ≠ none → s.paths (path.tmpPath n) ≠ none := by
    rintro place middle threads paths rfl
    refine ⟨fun other differ => by rw [threads_goto_of_ne _ _ differ, threads], fun path n there => ?_⟩
    rwa [← paths]
  cases point with
  | openSource =>
    cases outcome with
    | completed =>
      obtain ⟨file, -, same⟩ := Option.map_eq_some_iff.mp moved
      exact stays _ s rfl rfl same.symm
    | failed => exact stays _ s rfl rfl (Option.some.inj moved).symm
  | readv fd =>
    cases outcome with
    | completed transferred =>
      exact stays _ (s.readBlock blockSize call fd transferred) rfl rfl (Option.some.inj moved).symm
    | failed transferred =>
      exact stays _ (s.readBlock blockSize call fd transferred) rfl rfl (Option.some.inj moved).symm
  | removeSource fd =>
    cases outcome with
    | completed =>
      obtain ⟨middle, removed, rfl⟩ := Option.map_eq_some_iff.mp moved
      refine ⟨fun other differ => ?_, fun path n there => (paths_of_remove removed there).1⟩
      rw [threads_goto_of_ne _ _ differ, threads_remove removed]
    | failed => exact stays _ s rfl rfl (Option.some.inj moved).symm
  | close fd raising =>
    cases outcome with
    | completed => exact stays _ s rfl rfl (Option.some.inj moved).symm
    | failed => exact stays _ s rfl rfl (Option.some.inj moved).symm

/-! ## Runs -/

/-- Why a thread that is storing is still at it after a step, if its temporary file is still there. -/
theorem atIt_step {event : BlockEvent ι β} (moved : s.step number blockSize event = some s') {path : BlockPath}
    (atIt : AtIt s thread path) (there : s'.paths (path.tmpPath (number thread)) ≠ none) :
    AtIt s' thread path ∨ ∃ transferred call, event = .systemCall thread (.failed transferred) ∧
      s.threads thread = .storing call .removeTemporary ∧ call.path = path := by
  obtain ⟨call, point, here, rfl, made⟩ := atIt
  have elsewhere : s'.threads thread = s.threads thread → AtIt s' thread call.path :=
    fun same => ⟨call, point, same.trans here, rfl, made⟩
  have busy : (s.threads thread).isBusy = true := by rw [here]; rfl
  cases event with
  | storeBlock acting called =>
    simp only [Model.BlockFiles.step] at moved
    split at moved
    · cases moved
    · next idle =>
      obtain rfl := Option.some.inj moved
      refine .inl (elsewhere (threads_goto_of_ne _ _ ?_))
      rintro rfl
      exact idle busy
  | loadBlock acting called =>
    simp only [Model.BlockFiles.step] at moved
    split at moved
    · cases moved
    · next idle =>
      obtain rfl := Option.some.inj moved
      refine .inl (elsewhere (threads_goto_of_ne _ _ ?_))
      rintro rfl
      exact idle busy
  | systemCall acting outcome =>
    simp only [Model.BlockFiles.step] at moved
    by_cases own : acting = thread
    · subst own
      rw [here] at moved
      rcases (storeStep_deals moved).leaves made there with still | ⟨rfl, transferred, rfl⟩
      · exact .inl still
      · exact .inr ⟨transferred, call, rfl, here, rfl⟩
    · left
      split at moved
      · exact elsewhere ((storeStep_deals moved).others thread (Ne.symm own))
      · exact elsewhere ((loadStep_keeps moved).1 thread (Ne.symm own))
      · cases moved
  | unlink removing => exact .inl (elsewhere (congrFun (threads_remove moved) thread))
  | bufferWrite buffer bytes =>
    obtain rfl := Option.some.inj moved
    exact .inl (elsewhere rfl)

/-- A temporary file that is there was there before, or its thread has just made it. -/
theorem paths_step {event : BlockEvent ι β} (moved : s.step number blockSize event = some s') {path : BlockPath} {n : ℕ}
    (there : s'.paths (path.tmpPath n) ≠ none) :
    s.paths (path.tmpPath n) ≠ none ∨ ∃ thread, n = number thread ∧ AtIt s' thread path := by
  cases moves_of_step moved with
  | storing _ moved =>
    rcases (storeStep_deals moved).makes path n there with before | ⟨rfl, same, atIt⟩
    · exact .inl before
    · exact .inr ⟨_, same, atIt⟩
  | loading _ moved => exact .inl ((loadStep_keeps moved).2 path n there)
  | unlink removed => exact .inl (paths_of_remove removed there).1
  | _ => exact .inl there

theorem LeftBehind.snoc {start : BlockFiles ι β} {past : List (BlockEvent ι β)} {path : BlockPath}
    (left : LeftBehind number blockSize start past thread path) {event : BlockEvent ι β}
    (run : Run (Steps (Model.BlockFiles.step number blockSize)) start (past ++ [event]) s)
    (there : s.paths (path.tmpPath (number thread)) ≠ none) :
    LeftBehind number blockSize start (past ++ [event]) thread path := by
  obtain ⟨before, after, transferred, source, call, rfl, reached, here, same, ever⟩ := left
  refine ⟨before, after ++ [event], transferred, source, call, by simp, reached, here, same,
    fun more state inside later => ?_⟩
  rcases List.prefix_concat_iff.mp inside with rfl | earlier
  · have now : state = s := by
      have executed := later.replayed
      rw [show before ++ BlockEvent.systemCall thread (.failed transferred) :: (after ++ [event]) =
        before ++ BlockEvent.systemCall thread (.failed transferred) :: after ++ [event] by simp,
        run.replayed] at executed
      exact (Option.some.inj executed).symm
    rwa [now]
  · exact ever more state earlier later

/-- In every run from a directory without temporary files, each temporary file there is belongs to a thread that is
still at it, or to one whose removal of it has failed, and then it has been there ever since. -/
theorem temporaries_accounted {start : BlockFiles ι β}
    (clean : ∀ (path : BlockPath) (n : ℕ), start.paths (path.tmpPath n) = none) {events : List (BlockEvent ι β)}
    (run : Run (Steps (Model.BlockFiles.step number blockSize)) start events s)
    {path : BlockPath} {n : ℕ} (there : s.paths (path.tmpPath n) ≠ none) :
    ∃ thread, n = number thread ∧
      (AtIt s thread path ∨ LeftBehind number blockSize start events thread path) := by
  induction run with
  | nil => exact absurd (clean path n) there
  | @snoc past source target event before moved ih =>
    have whole := before.snoc moved
    rcases paths_step moved there with earlier | ⟨thread, same, atIt⟩
    · obtain ⟨thread, rfl, atIt | left⟩ := ih earlier
      · refine ⟨thread, rfl, ?_⟩
        rcases atIt_step moved atIt there with still | ⟨transferred, call, rfl, here, same⟩
        · exact .inl still
        · refine .inr ⟨past, [], transferred, source, call, rfl, before, here, same, fun more state inside later => ?_⟩
          obtain rfl := List.prefix_nil.mp inside
          have executed := later.replayed
          rw [whole.replayed] at executed
          rwa [← Option.some.inj executed]
      · exact ⟨thread, rfl, .inr (left.snoc whole there)⟩
    · exact ⟨thread, same, .inl atIt⟩

/-- A store whose write comes up short cannot remove its temporary file either. -/
def inVain : List (BlockEvent ℕ Unit) :=
  [.storeBlock 2 secondBlock, .systemCall 2 (.completed 0), .systemCall 2 (.completed 0), .systemCall 2 (.completed 0),
    .systemCall 2 (.completed 1), .systemCall 2 (.completed 0), .systemCall 2 (.failed 0)]

theorem temporaries_accounted_inVain : ∃ s,
    Run (Steps (Model.BlockFiles.step id 2)) emptyDirectory inVain s ∧ s.threads 2 = .raised ∧
      LeftBehind id 2 emptyDirectory inVain 2 secondBlock.path := by
  have executed : (replay (Model.BlockFiles.step id 2) emptyDirectory inVain).map (fun s =>
      (s.threads 2, (s.paths (secondBlock.path.tmpPath 2)).isSome)) = some (.raised, true) := by decide +kernel
  obtain ⟨s, replayed, facts⟩ := Option.map_eq_some_iff.mp executed
  obtain ⟨raised, there⟩ := Prod.mk.inj facts
  have run := Run.of_replay replayed
  obtain ⟨thread, same, accounted⟩ :=
    temporaries_accounted (fun _ _ => rfl) run (Option.isSome_iff_ne_none.mp there)
  obtain rfl : thread = 2 := same.symm
  refine ⟨s, run, raised, accounted.resolve_left ?_⟩
  rintro ⟨call, point, here, -⟩
  rw [raised] at here
  cases here

end KVTiering.Soundness.BlockFiles
