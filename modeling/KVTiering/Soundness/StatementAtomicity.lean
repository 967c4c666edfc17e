import KVTiering.Soundness.SharedStore
import KVTiering.Soundness.StoreLocks

/-! # The methods of the segment stores are atomic

A run of the stores statement by statement does to the tables and the caches what a run of whole operations does.
An operation that writes takes effect at its commit, and a `get_locations` outside of one takes effect chunk by
chunk: only the thread lock is held between its queries, so another process may commit there. While a method holds
the locks its process's cache may differ from the one of the operations, in a way that its place describes; a kill
at any statement looks like a restart.
-/

namespace KVTiering.Soundness.StoreThreads

open Model Model.StoreThreads

variable {ι θ : Type} [DecidableEq ι] [DecidableEq θ] {c d : StoreThreads ι θ} {s : SharedStore ι} {process : ι}
  {thread : θ}

/-! ### The operations that statements stand for -/

/-- What a `prepare_store` that raises has looked up so far, as one operation. -/
def lookedUp (c : StoreThreads ι θ) (process : ι) (keys : List OffloadKey) : StoreEvent ι :=
  .getLocations process (keys.filter fun key => ((c.store process).locationCache.get? key).isSome)

/-- The operation that takes effect with the next statement of a thread. -/
def actOperations (c : StoreThreads ι θ) (process : ι) : StoreThread → StatementAction → List (StoreEvent ι)
  | .selecting _ _ (chunk :: _), .proceed => [.getLocations process chunk]
  | .preparing keys blockIds locations [], .proceed =>
    if (uniqueUnstored keys blockIds (keys.map fun key => (locations.get? key).isSome)).items = [] then
      [.prepareStore process keys blockIds]
    else []
  | .preparing keys _ _ (_ :: _), .raise => [lookedUp c process keys]
  | .allocating keys _ _, .raise => [lookedUp c process keys]
  | .reserving keys _ _ _, .raise => [lookedUp c process keys]
  | .reserving keys blockIds _ _, .commit _ => [.prepareStore process keys blockIds]
  | .indexing plan, .commit none => [.completeStore process plan true]
  | .indexing plan, .commit (some read) => [.completeRaised process plan
      ((chunks ((c.store process).missingKeys (plan.entries.map SegmentWrite.key))).take read).flatten]
  | .deleting keys _, .commit _ => [.delete process keys]
  | _, _ => []

/-- The operation of a call that returns at once. -/
def callOperations (process : ι) : StoreOperation → List (StoreEvent ι)
  | .write (.prepareStore [] []) => [.prepareStore process [] []]
  | .write (.completeStore plan success) =>
    if success = false ∨ plan.entries = [] then [.completeStore process plan success] else []
  | _ => []

def operations (c : StoreThreads ι θ) : StatementEvent ι θ → List (StoreEvent ι)
  | .call process _ operation => callOperations process operation
  | .act process thread action => actOperations c process (c.threads process thread) action
  | .crash process config => [.restart process config]

/-- A call of `get_locations` whose chunks have no key in common: there is one chunk only, or no key is repeated. -/
def Unrepeated : StatementEvent ι θ → Prop
  | .call _ _ (.getLocations keys) => keys.Nodup ∨ keys.length ≤ indexBatchSize
  | _ => True

/-! ### Caches -/

/-- Two stores that answer every lookup alike. -/
structure Alike (first second : SegmentStore) : Prop where
  config : first.config = second.config
  cache : ∀ key, first.locationCache.get? key = second.locationCache.get? key

theorem Alike.refl (store : SegmentStore) : Alike store store := ⟨rfl, fun _ => rfl⟩

theorem get?_setAll_rows (d : Dict OffloadKey SegmentLocation) (db : Database) (pieces : List (List OffloadKey))
    (key : OffloadKey) : (d.setAll (pieces.flatMap db.selectBlocks)).get? key =
      (if ∃ chunk ∈ pieces, key ∈ chunk then db.blocks.get? key else none).or (d.get? key) := by
  have selected : ∀ row, row ∈ pieces.flatMap db.selectBlocks ↔
      db.blocks.get? row.1 = some row.2 ∧ ∃ chunk ∈ pieces, row.1 ∈ chunk := by
    intro row
    simp only [List.mem_flatMap, mem_selectBlocks]
    constructor
    · rintro ⟨chunk, member, row, inside⟩
      exact ⟨row, chunk, member, inside⟩
    · rintro ⟨row, chunk, member, inside⟩
      exact ⟨chunk, member, row, inside⟩
  by_cases found : (∃ chunk ∈ pieces, key ∈ chunk) ∧ ∃ location, db.blocks.get? key = some location
  · obtain ⟨inside, location, row⟩ := found
    rw [if_pos inside, row, Option.some_or]
    apply Dict.get?_setAll_of_forall
    · rintro ⟨other, at_other⟩ member same
      have atKey := ((selected _).mp member).1
      simp only at same
      rw [same, row] at atKey
      exact (Option.some.inj atKey).symm
    · exact List.mem_map.mpr ⟨(key, location), (selected _).mpr ⟨row, inside⟩, rfl⟩
  · have nothing : (if ∃ chunk ∈ pieces, key ∈ chunk then db.blocks.get? key else none) = none := by
      split
      · next inside =>
        rw [Option.eq_none_iff_forall_ne_some]
        exact fun location row => found ⟨inside, location, row⟩
      · rfl
    rw [nothing, Option.none_or]
    apply Dict.get?_setAll_of_notMem
    rw [List.mem_map]
    rintro ⟨row, member, rfl⟩
    exact found ⟨((selected _).mp member).2, row.2, ((selected _).mp member).1⟩

theorem get?_setAll_selectBlocks (d : Dict OffloadKey SegmentLocation) (db : Database) (chunk : List OffloadKey)
    (key : OffloadKey) : (d.setAll (db.selectBlocks chunk)).get? key =
      (if key ∈ chunk then db.blocks.get? key else none).or (d.get? key) := by
  simpa using get?_setAll_rows d db [chunk] key

theorem setAll_append {κ ν : Type*} [DecidableEq κ] (d : Dict κ ν) (first second : List (κ × ν)) :
    (d.setAll first).setAll second = d.setAll (first ++ second) := by
  simp [Dict.setAll, List.foldl_append]

theorem mem_missingKeys {store : SegmentStore} {keys : List OffloadKey} {key : OffloadKey} :
    key ∈ store.missingKeys keys ↔ key ∈ keys ∧ store.locationCache.get? key = none := by
  simp [SegmentStore.missingKeys]

theorem Alike.missingKeys {first second : SegmentStore} (alike : Alike first second) (keys : List OffloadKey) :
    first.missingKeys keys = second.missingKeys keys := by
  simp only [SegmentStore.missingKeys, alike.cache]

theorem Alike.cachedLocations {first second : SegmentStore} (alike : Alike first second) (keys : List OffloadKey) :
    first.cachedLocations keys = second.cachedLocations keys := by
  simp only [SegmentStore.cachedLocations, alike.cache]

theorem get?_cachedLocations {store : SegmentStore} {keys : List OffloadKey} {key : OffloadKey} (listed : key ∈ keys) :
    (store.cachedLocations keys).get? key = store.locationCache.get? key := by
  have cached := get?_cached store.locationCache keys key Dict.empty (by simp)
  rw [Dict.get?_empty, Option.none_or, if_pos listed] at cached
  exact cached

/-! ### What each place says of the two stores of a process -/

/-- The chunks read so far: the rows of them have been added to the cache and to the positions found. -/
structure Reading (db : Database) (concrete abstract : SegmentStore) (keys : List OffloadKey)
    (locations : Dict OffloadKey SegmentLocation) (rest : List (List OffloadKey)) : Prop where
  config : concrete.config = abstract.config
  split : ∃ done, chunks (abstract.missingKeys keys) = done ++ rest ∧
    locations = (abstract.cachedLocations keys).setAll (done.flatMap db.selectBlocks) ∧
    ∀ key, concrete.locationCache.get? key =
      (abstract.locationCache.setAll (done.flatMap db.selectBlocks)).get? key

/-- How the store of a process and the one of the operations are related while a thread is inside. -/
def Agrees (db : Database) (concrete abstract : SegmentStore) : StoreThread → Prop
  | .selecting keys locations rest => Alike concrete abstract ∧
      (∀ key ∈ keys, locations.get? key = concrete.locationCache.get? key) ∧
      (rest.flatten.Nodup ∨ rest.length ≤ 1) ∧ ∀ chunk ∈ rest, ∀ key ∈ chunk, concrete.locationCache.get? key = none
  | .preparing keys blockIds locations rest => keys.length = blockIds.length ∧ keys ≠ [] ∧
      Reading db concrete abstract keys locations rest
  | .allocating keys blockIds unique => keys.length = blockIds.length ∧ keys ≠ [] ∧
      (∃ locations, Reading db concrete abstract keys locations []) ∧
      unique = uniqueUnstored keys blockIds (abstract.containsMany db keys).1 ∧ unique.items ≠ []
  | .reserving keys blockIds plan rows => keys.length = blockIds.length ∧ keys ≠ [] ∧
      (∃ locations, Reading db concrete abstract keys locations []) ∧
      (uniqueUnstored keys blockIds (abstract.containsMany db keys).1).items ≠ [] ∧
      plan = (db.reservation abstract.config (uniqueUnstored keys blockIds (abstract.containsMany db keys).1)).1 ∧
      rows = (db.reservation abstract.config (uniqueUnstored keys blockIds (abstract.containsMany db keys).1)).2
  | .readingBack rest _ => concrete.config = abstract.config ∧ ∀ key, abstract.locationCache.get? key =
      (concrete.locationCache.setAll (rest.flatMap db.selectBlocks)).get? key
  | .finding keys existing rest => Alike concrete abstract ∧ ∃ done, chunks keys.eraseDups = done ++ rest ∧
      existing = done.flatMap fun chunk => (db.selectBlocks chunk).map Prod.fst
  | .deleting keys existing => Alike concrete abstract ∧
      existing = (chunks keys.eraseDups).flatMap fun chunk => (db.selectBlocks chunk).map Prod.fst
  | .forgetting existing => concrete.config = abstract.config ∧ ∀ key, abstract.locationCache.get? key =
      (concrete.locationCache.eraseAll existing).get? key
  | _ => Alike concrete abstract

/-- What is known of the arguments and results that a thread carries. -/
def Carries (plans : List SegmentStorePlan) : StoreThread → Prop
  | .entering (.getLocations keys) => keys.Nodup ∨ keys.length ≤ indexBatchSize
  | .entering (.write operation) | .locking operation => match operation with
    | .prepareStore keys blockIds => keys.length = blockIds.length ∧ keys ≠ []
    | .completeStore plan success => plan ∈ plans ∧ success = true ∧ plan.entries ≠ []
    | .delete _ => True
  | .indexing plan => plan ∈ plans ∧ plan.entries ≠ []
  | .unlocking (.plan plan) | .releasing (.plan plan) => plan ∈ plans
  | _ => True

/-- The place of the thread that holds the thread lock of a process. -/
def inside (c : StoreThreads ι θ) (process : ι) : StoreThread :=
  (c.threadLock process).elim (.outside none) (c.threads process)

structure Related (c : StoreThreads ι θ) (s : SharedStore ι) : Prop where
  locked : Locked c
  db : c.db = s.db
  stores : ∀ process, Agrees c.db (c.store process) (s.store process) (inside c process)
  carries : ∀ process thread, Carries (s.plans process) (c.threads process thread)
  plans : ∀ process, ∀ plan ∈ c.plans process, plan ∈ s.plans process

/-! ### The place of the thread inside -/

omit [DecidableEq ι] [DecidableEq θ] in
theorem inside_of_holds (locked : Locked c) (holds : (c.threads process thread).holdsThreadLock = true) :
    inside c process = c.threads process thread := by
  rw [inside, (locked.thread process thread).mp holds, Option.elim_some]

omit [DecidableEq ι] [DecidableEq θ] in
theorem inside_of_free (free : c.threadLock process = none) : inside c process = .outside none := by
  rw [inside, free, Option.elim_none]

omit [DecidableEq ι] [DecidableEq θ] in
/-- The thread inside holds the file lock only if its process does. -/
theorem fileLock_of_inside (locked : Locked c) (holds : (inside c process).holdsFileLock = true) :
    c.fileLock = some process := by
  unfold inside at holds
  cases taken : c.threadLock process with
  | none =>
    rw [taken] at holds
    cases holds
  | some thread =>
    rw [taken] at holds
    exact (locked.file process).mpr ⟨thread, holds⟩

theorem threads_shift {target : StoreThread} (shift : Shift c process thread target d) :
    d.threads process thread = target := by simp [shift.threads]

theorem threads_shift_other {target : StoreThread} (shift : Shift c process thread target d) {other : ι}
    (apart : other ≠ process) : d.threads other = c.threads other := by simp [shift.threads, apart]

theorem inside_shift_other {target : StoreThread} (shift : Shift c process thread target d) {other : ι}
    (apart : other ≠ process) : inside d other = inside c other := by
  have same : d.threadLock other = c.threadLock other := by
    rcases shift.threadLock with ⟨_, same⟩ | ⟨_, _, same⟩ | ⟨_, _, same⟩ <;> simp [same, apart]
  rw [inside, inside, same, threads_shift_other shift apart]

/-- Only the places that hold the file lock speak of the tables. -/
theorem agrees_of_tables {db db' : Database} {concrete abstract : SegmentStore} {place : StoreThread}
    (outside : place.holdsFileLock = false) (agrees : Agrees db concrete abstract place) :
    Agrees db' concrete abstract place := by
  cases place <;> first | exact agrees | cases outside

theorem Carries.mono {plans more : List SegmentStorePlan} {place : StoreThread} (carries : Carries plans place)
    (grows : ∀ plan ∈ plans, plan ∈ more) : Carries more place := by
  cases place with
  | entering operation =>
    cases operation with
    | getLocations keys => exact carries
    | write operation =>
      cases operation with
      | completeStore plan success => exact ⟨grows _ carries.1, carries.2⟩
      | _ => exact carries
  | locking operation =>
    cases operation with
    | completeStore plan success => exact ⟨grows _ carries.1, carries.2⟩
    | _ => exact carries
  | indexing plan => exact ⟨grows _ carries.1, carries.2⟩
  | unlocking result | releasing result =>
    cases result with
    | plan plan => exact grows _ carries
    | _ => trivial
  | _ => trivial

/-- A step of one thread keeps the relation if it does so for the store of its own process. -/
theorem Related.shift (related : Related c s) {target : StoreThread} (shift : Shift c process thread target d)
    (tables : d.db = c.db ∨ (c.threads process thread).holdsFileLock = true)
    (stores : ∀ other, other ≠ process → d.store other = c.store other ∧ d.plans other = c.plans other)
    {u : SharedStore ι}
    (operated : ∀ other, other ≠ process → u.store other = s.store other ∧ u.plans other = s.plans other)
    (grows : ∀ plan ∈ s.plans process, plan ∈ u.plans process) (db : d.db = u.db)
    (here : Agrees d.db (d.store process) (u.store process) (inside d process))
    (carries : Carries (u.plans process) target)
    (plans : ∀ plan ∈ d.plans process, plan ∈ u.plans process) : Related d u := by
  refine ⟨related.locked.shift shift, db, fun other => ?_, fun other another => ?_, fun other => ?_⟩
  · by_cases same : other = process
    · exact same ▸ here
    · rw [(stores other same).1, (operated other same).1, inside_shift_other shift same]
      rcases tables with same | held
      · rw [same]
        exact related.stores other
      · have owner := (related.locked.file process).mpr ⟨thread, held⟩
        apply agrees_of_tables _ (related.stores other)
        rw [Bool.eq_false_iff]
        intro holds
        have also := fileLock_of_inside related.locked holds
        exact same (Option.some.inj (also.symm.trans owner))
  · by_cases same : other = process
    · subst same
      by_cases also : another = thread
      · rw [also, threads_shift shift]
        exact carries
      · rw [shift.threads, Function.update_self, Function.update_of_ne also]
        exact (related.carries other another).mono grows
    · rw [threads_shift_other shift same, (operated other same).2]
      exact related.carries other another
  · by_cases same : other = process
    · exact same ▸ plans
    · rw [(stores other same).2, (operated other same).2]
      exact related.plans other

/-! ### Reading the rows of a list of keys -/

theorem Reading.start {db : Database} {concrete abstract : SegmentStore} (alike : Alike concrete abstract)
    (keys : List OffloadKey) : Reading db concrete abstract keys (concrete.cachedLocations keys)
      (chunks (concrete.missingKeys keys)) :=
  ⟨alike.config, [], by rw [alike.missingKeys, List.nil_append], by rw [alike.cachedLocations]; rfl, alike.cache⟩

theorem Reading.select {db : Database} {concrete abstract : SegmentStore} {keys chunk : List OffloadKey}
    {locations : Dict OffloadKey SegmentLocation} {rest : List (List OffloadKey)}
    (reading : Reading db concrete abstract keys locations (chunk :: rest)) :
    Reading db (concrete.cacheRows (db.selectBlocks chunk)) abstract keys (locations.setAll (db.selectBlocks chunk))
      rest := by
  obtain ⟨config, done, whole, rfl, cache⟩ := reading
  refine ⟨config, done ++ [chunk], by rw [whole, List.append_assoc, List.singleton_append], ?_, fun key => ?_⟩
  · rw [setAll_append, List.flatMap_append, List.flatMap_singleton]
  · rw [SegmentStore.cacheRows, List.flatMap_append, List.flatMap_singleton, ← setAll_append,
      get?_setAll_selectBlocks, get?_setAll_selectBlocks, cache]

theorem Reading.existing {db : Database} {concrete abstract : SegmentStore} {keys : List OffloadKey}
    {locations : Dict OffloadKey SegmentLocation} (reading : Reading db concrete abstract keys locations []) :
    (keys.map fun key => (locations.get? key).isSome) = (abstract.containsMany db keys).1 := by
  obtain ⟨_, done, whole, rfl, _⟩ := reading
  rw [List.append_nil] at whole
  rw [← whole]
  simp only [SegmentStore.containsMany, SegmentStore.getLocations, List.map_map]
  rfl

theorem Reading.alike {db : Database} {concrete abstract : SegmentStore} {keys : List OffloadKey}
    {locations : Dict OffloadKey SegmentLocation} (reading : Reading db concrete abstract keys locations []) :
    Alike concrete (abstract.getLocations db keys).2 := by
  obtain ⟨config, done, whole, _, cache⟩ := reading
  rw [List.append_nil] at whole
  rw [← whole] at cache
  exact ⟨config, cache⟩

/-- Looking up the keys that are cached by now leads to the cache as it is. -/
theorem Reading.alike_lookedUp {db : Database} {concrete abstract : SegmentStore} {keys : List OffloadKey}
    {locations : Dict OffloadKey SegmentLocation} {rest : List (List OffloadKey)}
    (reading : Reading db concrete abstract keys locations rest) :
    Alike concrete (abstract.getLocations db
      (keys.filter fun key => (concrete.locationCache.get? key).isSome)).2 := by
  obtain ⟨config, done, whole, _, cache⟩ := reading
  refine ⟨config, fun key => ?_⟩
  rw [SegmentStore.getLocations_cache, cache, get?_setAll_rows]
  have missing : (∃ chunk ∈ done, key ∈ chunk) → key ∈ keys ∧ abstract.locationCache.get? key = none := by
    rintro ⟨chunk, member, inside⟩
    apply mem_missingKeys.mp
    apply mem_chunk_of_mem.mp
    exact ⟨chunk, by simp [whole, member], inside⟩
  have now := cache key
  rw [get?_setAll_rows] at now
  by_cases read : ∃ chunk ∈ done, key ∈ chunk
  · obtain ⟨listed, absent⟩ := missing read
    rw [if_pos read, absent, Option.or_none] at now
    rw [if_pos read, absent, Option.or_none, Option.none_or]
    cases row : db.blocks.get? key with
    | none => simp
    | some location => simp [listed, now, row]
  · rw [if_neg read, Option.none_or] at now
    rw [if_neg read, Option.none_or]
    cases cached : abstract.locationCache.get? key <;> simp [now, cached]

/-! ### One statement -/

/-- A thread changes the store and the plans of its own process only. -/
theorem store_of_acts {source : StoreThread} {action : StatementAction} (acted : Acts c process thread source action d)
    {other : ι} (apart : other ≠ process) : d.store other = c.store other ∧ d.plans other = c.plans other := by
  cases acted <;> simp [goto, select, setStore, setThreadLock, leave, apart]

/-- Nothing is written to the tables without the file lock. -/
theorem db_of_acts {source : StoreThread} {action : StatementAction} (acted : Acts c process thread source action d) :
    d.db = c.db ∨ source.holdsFileLock = true := by
  cases acted <;> first | exact .inl rfl | exact .inr rfl

/-- A statement after which its thread is inside keeps the relation if it does so for the store of its own process. -/
theorem Related.acted (related : Related c s) {action : StatementAction} {target : StoreThread} {e : StoreThreads ι θ}
    (acted : Acts c process thread (c.threads process thread) action (e.goto process thread target))
    (holds : target.holdsThreadLock = true) (plans : e.plans = c.plans) {u : SharedStore ι}
    (operated : ∀ other, other ≠ process → u.store other = s.store other ∧ u.plans other = s.plans other)
    (grows : ∀ plan ∈ s.plans process, plan ∈ u.plans process) (db : e.db = u.db)
    (here : Agrees e.db (e.store process) (u.store process) target) (carries : Carries (u.plans process) target) :
    Related (e.goto process thread target) u := by
  obtain ⟨_, shift⟩ := shift_of_acts acted
  have place : (e.goto process thread target).threads process thread = target := by simp [goto]
  obtain rfl := (threads_shift shift).symm.trans place
  have at_target : inside (e.goto process thread _) process = _ :=
    inside_of_holds (related.locked.shift shift) (place ▸ holds)
  refine related.shift shift (db_of_acts acted) (fun _ apart => store_of_acts acted apart) operated grows db ?_ carries
    fun plan member => grows plan (related.plans process plan (plans ▸ member))
  rw [at_target, place]
  exact here

/-- A statement stands for the operations named. -/
def Answered (d : StoreThreads ι θ) (s : SharedStore ι) (events : List (StoreEvent ι)) : Prop :=
  ∃ u, Run (Steps SharedStore.step) s events u ∧ Related d u

theorem Related.unoperated (related : Related c s) {action : StatementAction} {target : StoreThread}
    {e : StoreThreads ι θ}
    (acted : Acts c process thread (c.threads process thread) action (e.goto process thread target))
    (holds : target.holdsThreadLock = true) (plans : e.plans = c.plans) (db : e.db = c.db)
    (here : Agrees e.db (e.store process) (s.store process) target) (carries : Carries (s.plans process) target) :
    Answered (e.goto process thread target) s [] :=
  ⟨s, .nil, related.acted acted holds plans (fun _ _ => ⟨rfl, rfl⟩) (fun _ member => member) (db.trans related.db) here
    carries⟩

omit [DecidableEq ι] [DecidableEq θ] in
/-- Inside of the methods, a statement that only moves its thread to another place stands for no operation. -/
theorem operations_quiet {source target : StoreThread} {action : StatementAction}
    (moved : Quiet c process source action target) : actOperations c process source action = [] := by
  cases moved with
  | prepared unstored => simp [actOperations, unstored]
  | _ => rfl

omit [DecidableEq ι] [DecidableEq θ] in
theorem holds_quiet {source target : StoreThread} {action : StatementAction}
    (moved : Quiet c process source action target) :
    source.holdsThreadLock = true ∧ target.holdsThreadLock = true := by
  cases moved <;> exact ⟨rfl, rfl⟩

omit [DecidableEq ι] [DecidableEq θ] in
theorem carries_quiet {source target : StoreThread} {action : StatementAction}
    (moved : Quiet c process source action target) (plans : List SegmentStorePlan) : Carries plans target := by
  cases moved <;> trivial

omit [DecidableEq ι] [DecidableEq θ] in
theorem agrees_quiet {source target : StoreThread} {action : StatementAction} {abstract : SegmentStore}
    (moved : Quiet c process source action target) (agrees : Agrees c.db (c.store process) abstract source) :
    Agrees c.db (c.store process) abstract target := by
  cases moved with
  | lockRaised | indexRaised => exact agrees
  | selected | selectRaised | findRaised | deleteRaised => exact agrees.1
  | @prepared keys blockIds locations unstored =>
    obtain ⟨same, nonempty, reading⟩ := agrees
    exact ⟨same, nonempty, ⟨_, reading⟩, by rw [reading.existing], unstored⟩
  | @allocated keys blockIds unique =>
    obtain ⟨same, nonempty, ⟨locations, reading⟩, rfl, unstored⟩ := agrees
    exact ⟨same, nonempty, ⟨_, reading⟩, unstored, by rw [reading.config], by rw [reading.config]⟩
  | readBack | readBackRaised => exact ⟨agrees.1, fun key => (agrees.2 key).symm⟩
  | @finding keys existing chunk rest =>
    obtain ⟨alike, done, whole, rfl⟩ := agrees
    exact ⟨alike, done ++ [chunk], by simp [whole], by simp⟩
  | @found keys existing =>
    obtain ⟨alike, done, whole, rfl⟩ := agrees
    exact ⟨alike, by rw [whole, List.append_nil]⟩

/-! ### The operation a statement stands for -/

theorem run_getLocations (s : SharedStore ι) (process : ι) (keys : List OffloadKey) :
    Run (Steps SharedStore.step) s [.getLocations process keys]
      (s.update process s.db ((s.store process).getLocations s.db keys).2) := .single rfl

omit [DecidableEq ι] [DecidableEq θ] in
/-- The keys of a chunk that is queried are not cached; its rows are cached by one lookup of the chunk. -/
theorem alike_select {db : Database} {concrete abstract : SegmentStore} {chunk : List OffloadKey}
    (alike : Alike concrete abstract) (uncached : ∀ key ∈ chunk, concrete.locationCache.get? key = none) :
    Alike (concrete.cacheRows (db.selectBlocks chunk)) (abstract.getLocations db chunk).2 := by
  refine ⟨alike.config, fun key => ?_⟩
  rw [SegmentStore.getLocations_cache, SegmentStore.cacheRows, get?_setAll_selectBlocks, ← alike.cache]
  by_cases member : key ∈ chunk
  · simp [member, uncached key member]
  · simp [member]

/-- Looking up keys and preparing a store from what was found. -/
theorem prepareStore_eq {store : SegmentStore} {db : Database} {keys : List OffloadKey} {blockIds : List ℕ}
    (same : keys.length = blockIds.length) (nonempty : keys ≠ []) :
    store.prepareStore db keys blockIds =
      if (uniqueUnstored keys blockIds (store.containsMany db keys).1).items = [] then
        .ok (⟨[]⟩, db, (store.getLocations db keys).2)
      else
        .ok ((db.reservation store.config (uniqueUnstored keys blockIds (store.containsMany db keys).1)).1,
          db.setMetadata (db.reservation store.config (uniqueUnstored keys blockIds (store.containsMany db keys).1)).2,
          (store.getLocations db keys).2) := by
  unfold SegmentStore.prepareStore
  rw [if_neg (by simpa using same), if_neg (by simpa using nonempty)]
  dsimp only [SegmentStore.containsMany_snd, SegmentStore.getLocations_config]
  by_cases stored : (uniqueUnstored keys blockIds (store.containsMany db keys).1).items = []
  · rw [if_pos stored, if_pos (by simpa using stored)]
  · rw [if_neg stored, if_neg (by simpa using stored)]
    rfl

theorem answered_quiet (related : Related c s) {source target : StoreThread} {action : StatementAction}
    (here : c.threads process thread = source) (moved : Quiet c process source action target) :
    Answered (c.goto process thread target) s (actOperations c process source action) := by
  have agrees := related.stores process
  rw [inside_of_holds related.locked (here ▸ (holds_quiet moved).1), here] at agrees
  have acted : Acts c process thread (c.threads process thread) action (c.goto process thread target) :=
    here ▸ .quiet moved
  rw [operations_quiet moved]
  exact related.unoperated acted (holds_quiet moved).2 rfl rfl (agrees_quiet moved agrees) (carries_quiet moved _)

/-- A `prepare_store` that raises has looked up the keys that are cached by now. -/
theorem answered_lookedUp (related : Related c s)
    (acted : Acts c process thread (c.threads process thread) .raise (c.goto process thread (.unlocking .raised)))
    {keys : List OffloadKey} {locations : Dict OffloadKey SegmentLocation} {rest : List (List OffloadKey)}
    (reading : Reading c.db (c.store process) (s.store process) keys locations rest) :
    Answered (c.goto process thread (.unlocking .raised)) s [lookedUp c process keys] := by
  refine ⟨_, run_getLocations s process _, related.acted acted rfl rfl ?_ ?_ related.db ?_ trivial⟩
  · intro other apart
    simp [apart]
  · exact fun _ member => member
  · simp only [SharedStore.update_store, Function.update_self, ← related.db]
    exact reading.alike_lookedUp

omit [DecidableEq ι] [DecidableEq θ] in
/-- No key is queried twice by a `get_locations` without repeated keys, nor by one that sends one query. -/
theorem unrepeated_chunks {keys missing : List OffloadKey} (sublist : missing.Sublist keys)
    (unrepeated : keys.Nodup ∨ keys.length ≤ indexBatchSize) :
    (chunks missing).flatten.Nodup ∨ (chunks missing).length ≤ 1 := by
  rcases unrepeated with distinct | short
  · left
    rw [chunks, slices_flatten (by decide)]
    exact distinct.sublist sublist
  · right
    have fits := sublist.length_le.trans short
    simp only [chunks, slices, List.length_map, List.length_range]
    simp only [indexBatchSize] at fits ⊢
    omega

/-- The rows of a plan are committed, and those of some keys of the plan that were not cached are still to be read
back. -/
theorem agrees_indexed {db : Database} {concrete abstract : SegmentStore} (alike : Alike concrete abstract)
    {pieces : List (List OffloadKey)}
    (uncached : ∀ chunk ∈ pieces, ∀ key ∈ chunk, concrete.locationCache.get? key = none) {read : List OffloadKey}
    (reads : ∀ key, concrete.locationCache.get? key = none → (key ∈ read ↔ ∃ chunk ∈ pieces, key ∈ chunk))
    (raises : Bool) : Agrees db concrete (abstract.getLocations db read).2 (.readingBack pieces raises) := by
  refine ⟨alike.config, fun key => ?_⟩
  rw [SegmentStore.getLocations_cache, get?_setAll_rows, ← alike.cache]
  cases cached : concrete.locationCache.get? key with
  | none => simp only [reads key cached, Option.none_or, Option.or_none]
  | some location =>
    have apart : ¬∃ chunk ∈ pieces, key ∈ chunk := by
      rintro ⟨chunk, member, inside⟩
      rw [uncached chunk member key inside] at cached
      cases cached
    rw [if_neg apart, Option.none_or, Option.some_or]

/-- A plan is returned: the same one, and the same rows are reserved, as by the whole operation. -/
theorem answered_prepared (related : Related c s) {action : StatementAction} {e : StoreThreads ι θ}
    {keys : List OffloadKey} {blockIds : List ℕ} {plan : SegmentStorePlan}
    (acted : Acts c process thread (c.threads process thread) action (e.goto process thread (.unlocking (.plan plan))))
    (plans : e.plans = c.plans) (store : e.store = c.store)
    {locations : Dict OffloadKey SegmentLocation}
    (reading : Reading c.db (c.store process) (s.store process) keys locations [])
    (returned : (s.store process).prepareStore c.db keys blockIds =
      .ok (plan, e.db, ((s.store process).getLocations c.db keys).2)) :
    Answered (e.goto process thread (.unlocking (.plan plan))) s [.prepareStore process keys blockIds] := by
  have stepped : s.step (.prepareStore process keys blockIds) =
      some (s.prepared process plan e.db ((s.store process).getLocations c.db keys).2) := by
    simp only [SharedStore.step, ← related.db, returned]
  refine ⟨_, .single stepped, related.acted acted rfl plans ?_ ?_ rfl ?_ ?_⟩
  · intro other apart
    simp [apart]
  · intro given member
    simp [member]
  · rw [store, SharedStore.prepared_store, Function.update_self]
    exact reading.alike
  · simp [Carries]

/-- The rows of a plan are committed: those that are cached by the whole operation are read back later. -/
theorem answered_indexed (related : Related c s) (alike : Alike (c.store process) (s.store process))
    (read : List OffloadKey) {action : StatementAction} {e : StoreThreads ι θ} {pieces : List (List OffloadKey)}
    {raises : Bool}
    (acted : Acts c process thread (c.threads process thread) action
      (e.goto process thread (.readingBack pieces raises)))
    (plans : e.plans = c.plans) (store : e.store = c.store) {event : StoreEvent ι}
    (stepped : s.step event = some (s.update process e.db ((s.store process).getLocations e.db read).2))
    (uncached : ∀ chunk ∈ pieces, ∀ key ∈ chunk, (c.store process).locationCache.get? key = none)
    (reads : ∀ key, (c.store process).locationCache.get? key = none →
      (key ∈ read ↔ ∃ chunk ∈ pieces, key ∈ chunk)) :
    Answered (e.goto process thread (.readingBack pieces raises)) s [event] := by
  refine ⟨_, .single stepped, related.acted acted rfl plans ?_ ?_ rfl ?_ trivial⟩
  · intro other apart
    simp [apart]
  · exact fun _ member => member
  · rw [store, SharedStore.update_store, Function.update_self]
    exact agrees_indexed alike uncached reads raises

/-- A method is over: nothing but the plan it may return is new. -/
theorem Related.leave (related : Related c s) {result : StoreResult} {e : StoreThreads ι θ}
    (shift : Shift c process thread (.outside (some result)) (e.leave process thread result)) (db : e.db = c.db)
    (store : e.store = c.store) (plans : e.plans = c.plans) {u : SharedStore ι} (same_db : s.db = u.db)
    (same_store : u.store = s.store) (operated : ∀ other, other ≠ process → u.plans other = s.plans other)
    (grows : ∀ plan ∈ s.plans process, plan ∈ u.plans process)
    (returned : ∀ plan, result = .plan plan → plan ∈ u.plans process)
    (here : Agrees c.db (c.store process) (s.store process) (inside (e.leave process thread result) process)) :
    Related (e.leave process thread result) u := by
  refine related.shift shift (.inl db) (fun other apart => ?_) (fun other apart => ?_) grows ?_ ?_ trivial ?_
  · exact ⟨congrFun store other, by simp [StoreThreads.leave, goto, apart, plans]⟩
  · exact ⟨congrFun same_store other, operated other apart⟩
  · exact db.trans (related.db.trans same_db)
  · rw [same_store]
    exact (congrArg₂ (fun db store => Agrees db (store process) (s.store process) _) db store).mpr here
  · intro plan member
    cases result with
    | plan given =>
      have listed : plan ∈ given :: e.plans process := by simpa [StoreThreads.leave, goto] using member
      rcases List.mem_cons.mp listed with rfl | older
      · exact returned plan rfl
      · exact grows plan (related.plans process plan (plans ▸ older))
    | _ =>
      simp only [StoreThreads.leave, goto, Function.update_self, plans] at member
      exact grows plan (related.plans process plan member)

theorem answered_acts (related : Related c s) {action : StatementAction}
    (acted : Acts c process thread (c.threads process thread) action d) :
    Answered d s (actOperations c process (c.threads process thread) action) := by
  have moved := acted
  have agrees : (c.threads process thread).holdsThreadLock = true →
      Agrees c.db (c.store process) (s.store process) (c.threads process thread) := by
    intro holds
    rw [← inside_of_holds related.locked holds]
    exact related.stores process
  have uncontended : c.threadLock process = none → Alike (c.store process) (s.store process) := by
    intro free
    have alike := related.stores process
    rw [inside_of_free free] at alike
    exact alike
  have carries := related.carries process thread
  generalize here : c.threads process thread = source at acted agrees carries ⊢
  cases acted with
  | quiet quiet => exact answered_quiet related here quiet
  | @acquireRead keys free =>
    refine related.unoperated moved rfl rfl rfl
      ⟨uncontended free, fun key => get?_cachedLocations, unrepeated_chunks List.filter_sublist carries,
        fun chunk member key inside => ?_⟩ trivial
    exact (mem_missingKeys.mp (mem_chunk_of_mem.mp ⟨chunk, member, inside⟩)).2
  | @acquireWrite operation free => exact related.unoperated moved rfl rfl rfl (uncontended free) carries
  | @lockPrepare keys blockIds free =>
    exact related.unoperated moved rfl rfl rfl ⟨carries.1, carries.2, Reading.start (agrees rfl) keys⟩ trivial
  | @lockComplete plan success free =>
    exact related.unoperated moved rfl rfl rfl (agrees rfl) ⟨carries.1, carries.2.2⟩
  | @lockDelete keys free => exact related.unoperated moved rfl rfl rfl ⟨agrees rfl, [], rfl, rfl⟩ trivial
  | @prepare keys chunk blockIds locations rest =>
    obtain ⟨same, nonempty, reading⟩ := agrees rfl
    refine related.unoperated moved rfl rfl rfl ⟨same, nonempty, ?_⟩ trivial
    simpa [goto, select, setStore] using reading.select
  | @prepareRaised keys chunk blockIds locations rest => exact answered_lookedUp related moved (agrees rfl).2.2
  | @allocateRaised keys blockIds unique =>
    obtain ⟨_, _, ⟨locations, reading⟩, _⟩ := agrees rfl
    exact answered_lookedUp related moved reading
  | @reserveRaised keys blockIds plan rows =>
    obtain ⟨_, _, ⟨locations, reading⟩, _⟩ := agrees rfl
    exact answered_lookedUp related moved reading
  | @unlockFile result =>
    exact related.unoperated moved rfl rfl rfl (agrees rfl) (by cases result <;> exact carries)
  | @select keys chunk locations rest =>
    obtain ⟨alike, found, unrepeated, uncached⟩ := agrees rfl
    refine ⟨_, run_getLocations s process chunk, related.acted moved rfl rfl (fun other apart => by simp [apart])
      (fun _ member => member) related.db ⟨?_, ?_, ?_, ?_⟩ trivial⟩
    · rw [SharedStore.update_store, Function.update_self, ← related.db]
      simpa [select, setStore] using alike_select alike (uncached chunk List.mem_cons_self)
    · intro key listed
      simp [select, setStore, SegmentStore.cacheRows, get?_setAll_selectBlocks, found key listed]
    · rcases unrepeated with distinct | short
      · exact .inl (List.nodup_append.mp (List.flatten_cons ▸ distinct)).2.1
      · exact .inr (by simpa using Nat.le_of_succ_le short)
    · intro other member key inside
      have apart : key ∉ chunk := by
        rcases unrepeated with distinct | short
        · intro both
          have elsewhere : key ∈ rest.flatten := List.mem_flatten_of_mem member inside
          exact (List.nodup_append.mp (List.flatten_cons ▸ distinct)).2.2 key both key elsewhere rfl
        · obtain rfl : rest = [] := by simpa using short
          cases member
      have absent := uncached other (List.mem_cons_of_mem _ member) key inside
      simp [select, setStore, SegmentStore.cacheRows, get?_setAll_selectBlocks, apart, absent]
  | @nothingToPrepare keys blockIds locations stored =>
    obtain ⟨same, nonempty, reading⟩ := agrees rfl
    simp only [actOperations, if_pos stored]
    rw [reading.existing] at stored
    exact answered_prepared related moved rfl rfl reading (by rw [prepareStore_eq same nonempty, if_pos stored])
  | @reserve keys blockIds plan rows unused =>
    obtain ⟨same, nonempty, ⟨locations, reading⟩, unstored, rfl, rfl⟩ := agrees rfl
    exact answered_prepared related moved rfl rfl reading (by rw [prepareStore_eq same nonempty, if_neg unstored])
  | @index plan =>
    have alike : Alike (c.store process) (s.store process) := agrees rfl
    refine answered_indexed related alike (plan.entries.map SegmentWrite.key) moved rfl rfl ?_ ?_ ?_
    · simp [SharedStore.step, SegmentStore.completeStore, carries.1, carries.2, alike.config, related.db]
    · intro chunk member key inside
      exact (mem_missingKeys.mp (mem_chunk_of_mem.mp ⟨chunk, member, inside⟩)).2
    · intro key absent
      rw [mem_chunk_of_mem, mem_missingKeys]
      exact ⟨fun listed => ⟨listed, absent⟩, And.left⟩
  | @indexThenRaise plan read raises =>
    have alike : Alike (c.store process) (s.store process) := agrees rfl
    refine answered_indexed related alike ((chunks ((c.store process).missingKeys
      (plan.entries.map SegmentWrite.key))).take read).flatten moved rfl rfl ?_ ?_ ?_
    · simp only [SharedStore.step, if_pos carries.1, alike.config, related.db]
    · intro chunk member key inside
      exact (mem_missingKeys.mp (mem_chunk_of_mem.mp ⟨chunk, List.mem_of_mem_take member, inside⟩)).2
    · intro key absent
      exact List.mem_flatten
  | @readBack chunk rest raises =>
    obtain ⟨config, cache⟩ := agrees rfl
    refine related.unoperated moved rfl rfl rfl ⟨?_, fun key => ?_⟩ trivial
    · simpa [select, setStore] using config
    · rw [cache, List.flatMap_cons, ← setAll_append]
      simp [select, setStore, SegmentStore.cacheRows]
  | @delete keys existing unused =>
    obtain ⟨alike, rfl⟩ := agrees rfl
    refine ⟨_, .single rfl, related.acted moved rfl rfl (fun other apart => by simp [apart])
      (fun _ member => member) ?_ ⟨?_, fun key => ?_⟩ trivial⟩
    · rw [related.db]
      exact deleteRows_eraseDups (s.store process) s.db keys
    · simpa [SegmentStore.delete] using alike.config
    · simp [Dict.get?_eraseAll, alike.cache, related.db]
  | @forget existing =>
    obtain ⟨config, cache⟩ := agrees rfl
    refine related.unoperated moved rfl rfl rfl ⟨?_, fun key => ?_⟩ (by trivial)
    · simpa [setStore] using config
    · simpa [setStore] using (cache key).symm
  | @release result =>
    have shift : Shift c process thread (.outside (some result)) ((c.setThreadLock process none).leave process thread
        result) := ⟨rfl, .inr (.inr ⟨by rw [here]; rfl, rfl, rfl⟩), .inl ⟨by rw [here]; rfl, rfl⟩⟩
    refine ⟨s, .nil, related.leave shift rfl rfl rfl rfl rfl (fun _ _ => rfl) (fun _ member => member) ?_ ?_⟩
    · rintro plan rfl
      exact carries
    · rw [inside_of_free (by simp [leave, goto, setThreadLock])]
      exact agrees rfl

theorem inside_shift_same {target : StoreThread} (locked : Locked c) (shift : Shift c process thread target d)
    (outside : (c.threads process thread).holdsThreadLock = false) (stays : target.holdsThreadLock = false) :
    inside d process = inside c process := by
  have same : d.threadLock process = c.threadLock process := by
    rcases shift.threadLock with ⟨_, same⟩ | ⟨_, holds, _⟩ | ⟨holds, _, _⟩
    · rw [same]
    · rw [stays] at holds
      cases holds
    · rw [outside] at holds
      cases holds
  rw [inside, inside, same]
  cases taken : c.threadLock process with
  | none => rfl
  | some holder =>
    have apart : holder ≠ thread := by
      rintro rfl
      have holds := (locked.thread process holder).mpr taken
      rw [outside] at holds
      cases holds
    simp [shift.threads, apart]

omit [DecidableEq ι] [DecidableEq θ] in
theorem not_holds_of_outside (outside : (c.threads process thread).isOutside = true) :
    (c.threads process thread).holdsThreadLock = false ∧ (c.threads process thread).holdsFileLock = false := by
  generalize c.threads process thread = place at outside
  cases place <;> first | exact ⟨rfl, rfl⟩ | cases outside

/-- A method is called and waits for the thread lock. -/
theorem answered_entering (related : Related c s) {operation : StoreOperation}
    (outside : (c.threads process thread).isOutside = true)
    (carries : Carries (s.plans process) (.entering operation)) :
    Answered (c.goto process thread (.entering operation)) s [] := by
  obtain ⟨free, unlocked⟩ := not_holds_of_outside outside
  have shift : Shift c process thread (.entering operation) (c.goto process thread (.entering operation)) :=
    ⟨rfl, .inl ⟨free.symm, rfl⟩, .inl ⟨unlocked.symm, rfl⟩⟩
  refine ⟨s, .nil, related.shift shift (.inl rfl) (fun _ _ => ⟨rfl, rfl⟩) (fun _ _ => ⟨rfl, rfl⟩)
    (fun _ member => member) related.db ?_ carries (related.plans process)⟩
  rw [inside_shift_same related.locked shift free rfl]
  exact related.stores process

/-- A method is called and returns or raises at once. -/
theorem answered_leaving (related : Related c s) {result : StoreResult}
    (outside : (c.threads process thread).isOutside = true) {events : List (StoreEvent ι)} {u : SharedStore ι}
    (run : Run (Steps SharedStore.step) s events u) (same_db : s.db = u.db) (same_store : u.store = s.store)
    (operated : ∀ other, other ≠ process → u.plans other = s.plans other)
    (grows : ∀ plan ∈ s.plans process, plan ∈ u.plans process)
    (returned : ∀ plan, result = .plan plan → plan ∈ u.plans process) :
    Answered (c.leave process thread result) s events := by
  obtain ⟨free, unlocked⟩ := not_holds_of_outside outside
  have shift : Shift c process thread (.outside (some result)) (c.leave process thread result) :=
    ⟨rfl, .inl ⟨free.symm, rfl⟩, .inl ⟨unlocked.symm, rfl⟩⟩
  refine ⟨u, run, related.leave shift rfl rfl rfl same_db same_store operated grows returned ?_⟩
  rw [inside_shift_same related.locked shift free rfl]
  exact related.stores process

theorem answered_call (related : Related c s) {operation : StoreOperation}
    (outside : (c.threads process thread).isOutside = true)
    (unrepeated : Unrepeated (.call process thread operation : StatementEvent ι θ))
    (called : c.call process thread operation = some d) : Answered d s (callOperations process operation) := by
  have quietly : ∀ result, (∀ plan, result ≠ .plan plan) → Answered (c.leave process thread result) s [] :=
    fun result noPlan => answered_leaving related outside .nil rfl rfl (fun _ _ => rfl) (fun _ member => member)
      fun plan same => absurd same (noPlan plan)
  cases operation with
  | getLocations keys =>
    simp only [call] at called
    split at called
    · cases called
      exact quietly _ (by simp)
    · cases called
      exact answered_entering related outside unrepeated
  | write operation =>
    cases operation with
    | prepareStore keys blockIds =>
      simp only [call] at called
      split at called
      · next different =>
        cases called
        have nothing : callOperations process (.write (.prepareStore keys blockIds)) = [] := by
          cases keys <;> cases blockIds <;> first | rfl | simp at different
        rw [nothing]
        exact quietly _ (by simp)
      · next same =>
        simp only [ne_eq, not_not] at same
        split at called
        · next noKeys =>
          subst noKeys
          obtain rfl : blockIds = [] := List.length_eq_zero_iff.mp same.symm
          cases called
          refine answered_leaving related outside (.single rfl) rfl (by simp) ?_ ?_ ?_
          · intro other apart
            simp [apart]
          · intro plan member
            simp [member]
          · rintro plan ⟨⟩
            simp
        · next nonempty =>
          cases called
          have nothing : callOperations process (.write (.prepareStore keys blockIds)) = [] := by
            cases keys with
            | nil => exact absurd rfl nonempty
            | cons => rfl
          rw [nothing]
          exact answered_entering related outside ⟨same, nonempty⟩
    | completeStore plan success =>
      simp only [call] at called
      split at called
      · cases called
      · next given =>
        have given := related.plans process plan (not_not.mp given)
        split at called
        · next nothing =>
          cases called
          have stepped : s.step (.completeStore process plan success) =
              some (s.update process s.db (s.store process)) := by
            simp only [SharedStore.step, if_pos given, SegmentStore.completeStore]
            rw [if_pos (by simpa using nothing)]
          simp only [callOperations, if_pos nothing]
          exact answered_leaving related outside (.single stepped) rfl (by simp) (fun _ _ => rfl)
            (fun _ member => member) (by simp)
        · next planned =>
          cases called
          simp only [callOperations, if_neg planned]
          obtain ⟨done, nonempty⟩ : success = true ∧ plan.entries ≠ [] := by simpa using planned
          exact answered_entering related outside ⟨given, done, nonempty⟩
    | delete keys =>
      simp only [call] at called
      split at called
      · cases called
        exact quietly _ (by simp)
      · cases called
        exact answered_entering related outside trivial

omit [DecidableEq θ] in
theorem answered_crash (related : Related c s) (process : ι) (config : SegmentConfig) :
    Answered (c.crash process config) s [.restart process config] := by
  refine ⟨_, .single rfl, related.locked.crash config, related.db, fun other => ?_, fun other thread => ?_,
    fun other plan member => ?_⟩
  · by_cases same : other = process
    · subst same
      rw [inside_of_free (by simp [crash])]
      simp only [crash, Function.update_self]
      exact Alike.refl (.init config)
    · have kept := related.stores other
      simpa [crash, same, inside] using kept
  · by_cases same : other = process
    · subst same
      simp [crash, Carries]
    · simpa [crash, same] using related.carries other thread
  · by_cases same : other = process
    · subst same
      simp [crash] at member
    · simp only [crash, Function.update_of_ne same] at member ⊢
      exact related.plans other plan member

/-! ### Runs -/

omit [DecidableEq ι] [DecidableEq θ] in
theorem related_init (db : Database) (config : ι → SegmentConfig) :
    Related (init db config : StoreThreads ι θ) (.init db config) :=
  ⟨locked_init db config, rfl, fun _ => Alike.refl _, fun _ _ => trivial, fun _ _ member => member⟩

theorem answered_step (related : Related c s) {event : StatementEvent ι θ} (unrepeated : Unrepeated event)
    (moved : c.step event = some d) : Answered d s (operations c event) := by
  cases event with
  | call process thread operation =>
    simp only [StoreThreads.step] at moved
    split at moved
    · next outside => exact answered_call related outside unrepeated moved
    · cases moved
  | act process thread action => exact answered_acts related (acts_of_act moved)
  | crash process config =>
    cases moved
    exact answered_crash related process config

/-- What a method is about to return is what its whole operation gives: a `get_locations` the positions cached by
now, a `prepare_store` its plan, a `delete` the keys that have a row. -/
def Returning (db : Database) (store : SegmentStore) : StoreThread → Prop
  | .selecting keys locations [] => keys.map locations.get? = keys.map store.locationCache.get?
  | .reserving keys blockIds plan _ => ∃ db' store', store.prepareStore db keys blockIds = .ok (plan, db', store')
  | .deleting keys existing => existing.toFinset = (store.delete db keys).1
  | _ => True

theorem Agrees.returning {db : Database} {concrete abstract : SegmentStore} {place : StoreThread}
    (agrees : Agrees db concrete abstract place) : Returning db abstract place := by
  cases place with
  | selecting keys locations rest =>
    cases rest with
    | nil => exact List.map_congr_left fun key listed => (agrees.2.1 key listed).trans (agrees.1.cache key)
    | cons => trivial
  | reserving keys blockIds plan rows =>
    obtain ⟨same, nonempty, _, unstored, rfl, rfl⟩ := agrees
    exact ⟨_, _, by rw [prepareStore_eq same nonempty, if_neg unstored]⟩
  | deleting keys existing =>
    obtain ⟨_, rfl⟩ := agrees
    rfl
  | _ => trivial

/-- The methods are atomic: what the statements of any run do to the tables and the caches, and what they return, is
what the operations they stand for do one after the other. -/
theorem methods_atomic {db : Database} {config : ι → SegmentConfig} {events : List (StatementEvent ι θ)}
    (run : Run (Steps StoreThreads.step) (init db config) events c)
    (unrepeated : ∀ event ∈ events, Unrepeated event) :
    ∃ s, Run (Steps SharedStore.step) (.init db config)
        (emitted StoreThreads.step operations (init db config) events) s ∧
      s.db = c.db ∧ (∀ process, c.threadLock process = none → Alike (c.store process) (s.store process)) ∧
      (∀ process, ∀ plan ∈ c.plans process, plan ∈ s.plans process) ∧
      ∀ process thread, Returning s.db (s.store process) (c.threads process thread) := by
  obtain ⟨s, answer, related⟩ := Run.simulated (fun _ _ _ moved => moved) Related run (related_init db config)
    fun source event target state member related moved => answered_step related (unrepeated event member) moved
  refine ⟨s, answer, related.db.symm, fun process free => ?_, related.plans, fun process thread => ?_⟩
  · have alike := related.stores process
    rw [inside_of_free free] at alike
    exact alike
  · by_cases holds : (c.threads process thread).holdsThreadLock = true
    · have agrees := related.stores process
      rw [inside_of_holds related.locked holds, related.db] at agrees
      exact agrees.returning
    · generalize c.threads process thread = place at holds
      cases place <;> trivial

theorem methods_atomic_overlapping : ∃ c : StoreThreads Bool Unit,
    Run (Steps StoreThreads.step) (init SharedStore.legacyDatabase SharedStore.mixedConfig) overlappingTape c ∧
      ∃ s, Run (Steps SharedStore.step) (.init SharedStore.legacyDatabase SharedStore.mixedConfig)
          [.getLocations true [[7], [1]], .prepareStore false [[1], [7]] [0, 1]] s ∧
        s.db = c.db ∧ Alike (c.store true) (s.store true) := by
  have executed : ((replay StoreThreads.step (init SharedStore.legacyDatabase SharedStore.mixedConfig)
      overlappingTape).map fun c : StoreThreads Bool Unit => c.threadLock true) = some none := by decide
  obtain ⟨c, replayed, free⟩ := Option.map_eq_some_iff.mp executed
  have run := Run.of_replay replayed
  obtain ⟨s, answer, db, stores, _⟩ := methods_atomic run (by simp [overlappingTape, Unrepeated])
  exact ⟨c, run, s, answer, db, stores true free⟩

end KVTiering.Soundness.StoreThreads
