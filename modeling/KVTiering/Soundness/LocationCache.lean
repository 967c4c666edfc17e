import KVTiering.Model.SoleStore
import KVTiering.Soundness.SharedStore

/-! # What the location cache may answer

A store that alone uses its directory caches a part of the table, so its cache never shows in an answer.
Beside other instances the cache can hold positions whose rows are gone, and `delete` drops only the
cached positions of keys that still have a row: it forgets its keys exactly when none of them is cached
without a row.
-/

namespace KVTiering.Soundness

open Model

/-- Every cached position is the row of its key. -/
def Mirrors (store : SegmentStore) (db : Database) : Prop :=
  ∀ key location, store.locationCache.get? key = some location → db.blocks.get? key = some location

theorem mirrors_init (config : SegmentConfig) (db : Database) : Mirrors (.init config) db := by
  intro key location cached
  cases cached

/-- A key without a row is not cached. -/
theorem Mirrors.uncached {store : SegmentStore} {db : Database} (mirrors : Mirrors store db) {key : OffloadKey}
    (absent : db.blocks.get? key = none) : store.locationCache.get? key = none := by
  rw [Option.eq_none_iff_forall_ne_some]
  intro location cached
  rw [mirrors key location cached] at absent
  cases absent

theorem Mirrors.getLocations {store : SegmentStore} {db : Database} (mirrors : Mirrors store db)
    (keys : List OffloadKey) : Mirrors (store.getLocations db keys).2 db := by
  intro key location cached
  rw [SegmentStore.getLocations_cache, Option.or_eq_some_iff] at cached
  rcases cached with old | ⟨_, row⟩
  · exact mirrors key location old
  · split at row
    · exact row
    · cases row

/-- Indexing a plan keeps every row that was there. -/
theorem Mirrors.indexPlan {store : SegmentStore} {db : Database} (mirrors : Mirrors store db)
    (blockSize : ℕ) (plan : SegmentStorePlan) : Mirrors store (db.indexPlan blockSize plan) := by
  intro key location cached
  rw [Database.get?_indexPlan, mirrors key location cached]
  rfl

theorem Mirrors.completeStore {store : SegmentStore} {db : Database} (mirrors : Mirrors store db)
    (plan : SegmentStorePlan) (success : Bool) :
    Mirrors (store.completeStore db plan success).2 (store.completeStore db plan success).1 := by
  unfold SegmentStore.completeStore
  split
  · exact mirrors
  · exact (mirrors.indexPlan _ plan).getLocations _

theorem Mirrors.prepareStore {store store' : SegmentStore} {db db' : Database}
    (mirrors : Mirrors store db) {keys : List OffloadKey} {blockIds : List ℕ} {plan : SegmentStorePlan}
    (returned : store.prepareStore db keys blockIds = .ok (plan, db', store')) : Mirrors store' db' := by
  obtain ⟨rfl, ⟨_, rfl⟩ | ⟨unique, reserved⟩⟩ := prepareStore_cases returned
  · exact mirrors.getLocations keys
  · obtain ⟨rfl, rfl⟩ := Prod.mk.inj reserved
    exact mirrors.getLocations keys

/-- A deleted key was cached only if it had a row, and then its cached position goes with the row. -/
theorem Mirrors.delete {store : SegmentStore} {db : Database} (mirrors : Mirrors store db)
    (keys : List OffloadKey) : Mirrors (store.delete db keys).2.2 (store.delete db keys).2.1 := by
  intro key location cached
  rw [SegmentStore.delete_cache] at cached
  split at cached
  · cases cached
  · next kept =>
    have row := mirrors key location cached
    have other : key ∉ keys := fun member => kept ⟨member, by rw [Dict.contains, row]; rfl⟩
    rw [SegmentStore.delete_blocks, if_neg other, row]

/-- A load looks its keys up or not, and deletes them or not. -/
theorem loadMany_cases (store : SegmentStore) (db : Database) (viewSize maxBuffers : ℕ) (keys : List OffloadKey)
    (blockIds : List ℕ) (locations : Option (List (Option SegmentLocation))) (failed : Bool) :
    ∃ store', (store' = store ∨ store' = (store.getLocations db keys).2) ∧
      (store.loadMany db viewSize maxBuffers keys blockIds locations failed = (db, store') ∨
        store.loadMany db viewSize maxBuffers keys blockIds locations failed = (store'.delete db keys).2) := by
  have handler : ∀ (io : IoConfig) located, (Model.loadMany io keys blockIds located).handler = .reraise ∨
      (Model.loadMany io keys blockIds located).handler = .delete keys := by
    intro io located
    rw [Model.loadMany]
    split_ifs
    · exact .inl rfl
    · exact .inl rfl
    · dsimp only
      split
      · exact .inl rfl
      · exact .inr rfl
  unfold SegmentStore.loadMany
  split_ifs
  · exact ⟨store, .inl rfl, .inl rfl⟩
  · cases locations with
    | none =>
      refine ⟨_, .inr rfl, ?_⟩
      dsimp only
      split_ifs
      · rcases handler ⟨store.config.blockSize, viewSize, maxBuffers⟩ (store.getLocations db keys).1 with h | h
        · exact .inl (by rw [SegmentStore.getLocations_config, h])
        · exact .inr (by rw [SegmentStore.getLocations_config, h])
      · exact .inl rfl
    | some located =>
      refine ⟨store, .inl rfl, ?_⟩
      dsimp only
      split_ifs
      · rcases handler ⟨store.config.blockSize, viewSize, maxBuffers⟩ located with h | h
        · exact .inl (by rw [h])
        · exact .inr (by rw [h])
      · exact .inl rfl

theorem Mirrors.loadMany {store : SegmentStore} {db : Database} (mirrors : Mirrors store db)
    (viewSize maxBuffers : ℕ) (keys : List OffloadKey) (blockIds : List ℕ)
    (locations : Option (List (Option SegmentLocation))) (failed : Bool) :
    Mirrors (store.loadMany db viewSize maxBuffers keys blockIds locations failed).2
      (store.loadMany db viewSize maxBuffers keys blockIds locations failed).1 := by
  obtain ⟨store', origin, same⟩ := loadMany_cases store db viewSize maxBuffers keys blockIds locations failed
  have looked : Mirrors store' db := by
    rcases origin with rfl | rfl
    · exact mirrors
    · exact mirrors.getLocations keys
  rcases same with same | same <;> rw [same]
  · exact looked
  · exact looked.delete keys

/-- While the cache mirrors the table, a lookup answers from the table alone. -/
theorem Mirrors.getLocations_fst {store : SegmentStore} {db : Database} (mirrors : Mirrors store db)
    (keys : List OffloadKey) : (store.getLocations db keys).1 = keys.map db.blocks.get? := by
  rw [SegmentStore.getLocations_fst]
  apply List.map_congr_left
  intro key _
  cases cached : store.locationCache.get? key with
  | none => rfl
  | some location => rw [mirrors key location cached, Option.or_some, Option.getD_some]

namespace SoleStore

theorem mirrors_call {s : SoleStore} (mirrors : Mirrors s.store s.db) (call : StoreCall) :
    Mirrors (s.call call).store (s.call call).db := by
  cases call with
  | getLocations keys => exact mirrors.getLocations keys
  | prepareStore keys blockIds =>
    simp only [SoleStore.call]
    split
    · exact mirrors
    · next returned => exact mirrors.prepareStore returned
  | prepareRaised keys => exact mirrors.getLocations keys
  | completeStore plan success => exact mirrors.completeStore plan success
  | completeRaised plan read => exact (mirrors.indexPlan _ plan).getLocations read
  | loadMany viewSize maxBuffers keys blockIds locations failed =>
    exact mirrors.loadMany viewSize maxBuffers keys blockIds locations failed
  | delete keys => exact mirrors.delete keys

theorem mirrors_after {s : SoleStore} (mirrors : Mirrors s.store s.db) (calls : List StoreCall) :
    Mirrors (s.after calls).store (s.after calls).db := by
  induction calls generalizing s with
  | nil => exact mirrors
  | cons call rest ih => exact ih (mirrors_call mirrors call)

/-- With one instance the cache is transparent: after any calls it is a part of the table, and
`get_locations` answers each key with its row. -/
theorem cache_transparent (db : Database) (config : SegmentConfig) (calls : List StoreCall) :
    let s := (SoleStore.init db config).after calls
    (∀ key location, s.store.locationCache.get? key = some location →
      s.db.blocks.get? key = some location) ∧
    ∀ keys, (s.store.getLocations s.db keys).1 = keys.map s.db.blocks.get? := by
  have mirrors := mirrors_after (s := .init db config) (mirrors_init config db) calls
  exact ⟨mirrors, mirrors.getLocations_fst⟩

end SoleStore

/-! ### Deleting beside other instances -/

namespace SharedStore

variable {ι : Type}

/-- `get_locations` of the process offers no position for any of the keys. -/
def Forgotten (s : SharedStore ι) (process : ι) (keys : List OffloadKey) : Prop :=
  ∀ location ∈ ((s.store process).getLocations s.db keys).1, location = none

/-- Whatever the process has cached of the keys has a row. -/
def Indexed (s : SharedStore ι) (process : ι) (keys : List OffloadKey) : Prop :=
  ∀ key ∈ keys, (s.store process).locationCache.contains key = true → s.db.blocks.contains key = true

/-- The process could offer the position for the key, from its cache or from the table. -/
def Known (s : SharedStore ι) (process : ι) (key : OffloadKey) (location : SegmentLocation) : Prop :=
  (s.store process).locationCache.get? key = some location ∨ s.db.blocks.get? key = some location

/-- The event indexes the key at the position. -/
def Indexes (key : OffloadKey) (location : SegmentLocation) : StoreEvent ι → Prop
  | .completeStore _ plan success => success = true ∧ ∃ entry ∈ plan.entries,
      entry.key = key ∧ entry.segmentId = location.segmentId ∧ entry.offset = location.offset
  | .completeRaised _ plan _ => ∃ entry ∈ plan.entries,
      entry.key = key ∧ entry.segmentId = location.segmentId ∧ entry.offset = location.offset
  | _ => False

theorem known_of_offered {s : SharedStore ι} {process : ι} {keys : List OffloadKey} {key : OffloadKey}
    {location : SegmentLocation}
    (offered : (key, some location) ∈ keys.zip ((s.store process).getLocations s.db keys).1) :
    Known s process key location := by
  rw [SegmentStore.getLocations_fst] at offered
  nth_rewrite 1 [← List.map_id keys] at offered
  rw [List.zip_map', List.mem_map] at offered
  obtain ⟨_, _, same⟩ := offered
  obtain ⟨rfl, found⟩ := Prod.mk.inj same
  exact (Option.or_eq_some_iff.mp found).imp id And.right

/-- Looking keys up tells a process no more than it could have offered before. -/
theorem known_of_getLocations {store : SegmentStore} {db : Database} {keys : List OffloadKey}
    {key : OffloadKey} {location : SegmentLocation}
    (cached : (store.getLocations db keys).2.locationCache.get? key = some location) :
    store.locationCache.get? key = some location ∨ db.blocks.get? key = some location := by
  rw [SegmentStore.getLocations_cache, Option.or_eq_some_iff] at cached
  apply cached.imp id
  rintro ⟨_, row⟩
  split at row
  · exact row
  · cases row

/-- A row after indexing a plan is an old one or the position of an entry. -/
theorem entry_of_indexPlan {db : Database} {blockSize : ℕ} {plan : SegmentStorePlan} {key : OffloadKey}
    {location : SegmentLocation} (row : (db.indexPlan blockSize plan).blocks.get? key = some location) :
    db.blocks.get? key = some location ∨
      ∃ entry ∈ plan.entries, entry.key = key ∧ entry.location blockSize = location := by
  rw [Database.get?_indexPlan, Option.or_eq_some_iff] at row
  apply row.imp id
  rintro ⟨_, new⟩
  obtain ⟨entry, found, rfl⟩ := Option.map_eq_some_iff.mp new
  exact ⟨entry, List.mem_of_find?_eq_some found, by simpa using List.find?_some found, rfl⟩

/-- A row after completing a plan is an old one or names an entry of the plan. -/
theorem row_of_indexPlan {db : Database} {blockSize : ℕ} {plan : SegmentStorePlan} {key : OffloadKey}
    {location : SegmentLocation} (row : (db.indexPlan blockSize plan).blocks.get? key = some location) :
    db.blocks.get? key = some location ∨ ∃ entry ∈ plan.entries,
      entry.key = key ∧ entry.segmentId = location.segmentId ∧ entry.offset = location.offset := by
  apply (entry_of_indexPlan row).imp id
  rintro ⟨entry, planned, same, rfl⟩
  exact ⟨entry, planned, same, rfl, rfl⟩

variable [DecidableEq ι]

/-- What a process can offer after an operation that replaces the tables and one cache. -/
theorem Known.of_update {s : SharedStore ι} {process acting : ι} {db : Database} {store : SegmentStore}
    {key : OffloadKey} {location : SegmentLocation}
    (known : Known (s.update acting db store) process key location) :
    (acting = process ∧ store.locationCache.get? key = some location) ∨
      (s.store process).locationCache.get? key = some location ∨ db.blocks.get? key = some location := by
  rcases known with cached | row
  · by_cases same : process = acting
    · subst same
      exact .inl ⟨rfl, by simpa using cached⟩
    · exact .inr (.inl (by simpa [same] using cached))
  · exact .inr (.inr row)

theorem step_delete (s : SharedStore ι) (process : ι) (keys : List OffloadKey) :
    s.step (.delete process keys) = some (s.update process ((s.store process).delete s.db keys).2.1
      ((s.store process).delete s.db keys).2.2) := rfl

/-- A position that can be offered after an event could be offered before, or is a row that the event adds. -/
theorem known_or_added {s t : SharedStore ι} {event : StoreEvent ι} {process : ι} {key : OffloadKey}
    {location : SegmentLocation} (moved : s.step event = some t) (known : Known t process key location) :
    Known s process key location ∨ ∃ acting, ∃ plan ∈ s.plans acting,
      (event = .completeStore acting plan true ∨ ∃ read, event = .completeRaised acting plan read) ∧
      (s.db.indexPlan (s.store acting).config.blockSize plan).blocks.get? key = some location := by
  -- the operation has looked up keys in tables whose rows are old rows or satisfy `more`
  have lookedUp : ∀ (acting : ι) (db : Database) (keys : List OffloadKey) (more : Prop),
      (db.blocks.get? key = some location → s.db.blocks.get? key = some location ∨ more) →
      Known (s.update acting db ((s.store acting).getLocations db keys).2) process key location →
      Known s process key location ∨ more := by
    intro acting db keys more rows known
    rcases known.of_update with ⟨rfl, cached⟩ | cached | row
    · rcases known_of_getLocations cached with old | row
      · exact .inl (.inl old)
      · exact (rows row).imp .inr id
    · exact .inl (.inl cached)
    · exact (rows row).imp .inr id
  cases SharedStore.moves_of_step moved with
  | @getLocations acting keys => exact lookedUp acting s.db keys _ .inl known
  | prepareStore returned =>
    have blocks := prepareStore_blocks returned
    obtain ⟨rfl, _⟩ := prepareStore_cases returned
    rcases Known.of_update (s := s) known with ⟨rfl, cached⟩ | cached | row
    · exact .inl (known_of_getLocations cached)
    · exact .inl (.inl cached)
    · exact .inl (.inr (blocks ▸ row))
  | completeNothing =>
    rcases known.of_update with ⟨rfl, cached⟩ | cached | row
    · exact .inl (.inl cached)
    · exact .inl (.inl cached)
    · exact .inl (.inr row)
  | @completeStore acting plan given =>
    exact lookedUp acting _ _ _ (fun row => .inr ⟨acting, plan, given, .inl rfl, row⟩) known
  | @completeRaised acting plan read given =>
    exact lookedUp acting _ _ _ (fun row => .inr ⟨acting, plan, given, .inr ⟨read, rfl⟩, row⟩) known
  | delete =>
    rcases known.of_update with ⟨rfl, cached⟩ | cached | row
    · rw [SegmentStore.delete_cache] at cached
      split at cached
      · cases cached
      · exact .inl (.inl cached)
    · exact .inl (.inl cached)
    · rw [SegmentStore.delete_blocks] at row
      split at row
      · cases row
      · exact .inl (.inr row)
  | @restart acting config =>
    refine .inl (known.imp (fun cached => ?_) id)
    by_cases same : process = acting
    · subst same
      simp [SegmentStore.init] at cached
    · simpa [same] using cached

/-- A position that can be offered after an event could be offered before, or the event indexes it. -/
theorem known_of_step {s t : SharedStore ι} {event : StoreEvent ι} {process : ι} {key : OffloadKey}
    {location : SegmentLocation} (moved : s.step event = some t) (known : Known t process key location) :
    Known s process key location ∨ Indexes key location event := by
  rcases known_or_added moved known with earlier | ⟨acting, plan, _, indexing, row⟩
  · exact .inl earlier
  · rcases row_of_indexPlan row with old | entry
    · exact .inl (.inr old)
    · rcases indexing with rfl | ⟨read, rfl⟩
      · exact .inr ⟨rfl, entry⟩
      · exact .inr entry

/-- A position that no process of a run indexes is offered only if it could be offered at its start. -/
theorem known_of_run {s t : SharedStore ι} {events : List (StoreEvent ι)} {process : ι}
    {key : OffloadKey} {location : SegmentLocation} (run : Run (Steps SharedStore.step) s events t)
    (known : Known t process key location) :
    Known s process key location ∨ ∃ event ∈ events, Indexes key location event := by
  induction run with
  | nil => exact .inl known
  | snoc before moved ih =>
    rcases known_of_step moved known with earlier | indexed
    · rcases ih earlier with start | ⟨event, member, indexed⟩
      · exact .inl start
      · exact .inr ⟨event, List.mem_append_left _ member, indexed⟩
    · exact .inr ⟨_, List.mem_append_right _ (List.mem_singleton_self _), indexed⟩

/-- Deleting forgets exactly when no key was cached without a row. -/
theorem forgotten_iff_of_delete {s t : SharedStore ι} {process : ι} {keys : List OffloadKey}
    (moved : s.step (.delete process keys) = some t) :
    Forgotten t process keys ↔ Indexed s process keys := by
  obtain rfl := Option.some.inj ((step_delete s process keys).symm.trans moved)
  simp only [Forgotten, Indexed, SharedStore.update_db, SharedStore.update_store, Function.update_self,
    SegmentStore.getLocations_fst, List.forall_mem_map]
  apply forall₂_congr
  intro key member
  rw [SegmentStore.delete_cache, SegmentStore.delete_blocks, if_pos member, Option.or_none]
  cases row : s.db.blocks.contains key <;> simp [member, Dict.contains]

/-- In every run, a delete forgets its keys exactly when the deleting instance had none of them cached
without a row; and then none of them is offered at any position until that position is indexed again. -/
theorem delete_forgets_iff {db : Database} {config : ι → SegmentConfig}
    {before after : List (StoreEvent ι)} {process : ι} {keys : List OffloadKey} {u : SharedStore ι}
    (run : Run (Steps SharedStore.step) (.init db config) (before ++ .delete process keys :: after) u) :
    ∃ s t, Run (Steps SharedStore.step) (.init db config) before s ∧
      s.step (.delete process keys) = some t ∧ Run (Steps SharedStore.step) t after u ∧
      (Forgotten t process keys ↔ Indexed s process keys) ∧
      (Indexed s process keys → ∀ key ∈ keys, ∀ (asked : List OffloadKey) (location : SegmentLocation),
        (key, some location) ∈ asked.zip ((u.store process).getLocations u.db asked).1 →
          ∃ event ∈ after, Indexes key location event) := by
  obtain ⟨s, t, first, moved, rest⟩ := run.at_event
  refine ⟨s, t, first, moved, rest, forgotten_iff_of_delete moved, ?_⟩
  intro indexed key member asked location offered
  have forgotten := (forgotten_iff_of_delete moved).mpr indexed
  rcases known_of_run rest (known_of_offered offered) with known | later
  · exfalso
    have noPosition : ((t.store process).locationCache.get? key).or (t.db.blocks.get? key) = none := by
      apply forgotten
      rw [SegmentStore.getLocations_fst]
      exact List.mem_map_of_mem member
    obtain ⟨uncached, noRow⟩ := Option.or_eq_none_iff.mp noPosition
    rcases known with cached | row
    · rw [uncached] at cached
      cases cached
    · rw [noRow] at row
      cases row
  · exact later

/-- A block is stored by one instance, deleted by the other, and deleted again by the first. -/
theorem delete_keeps_stale_location : ∃ s t : SharedStore Bool,
    Run (Steps SharedStore.step) (.init .empty fun _ => mixedConfig false) staleTape s ∧
      s.step (.delete false [[1]]) = some t ∧
      ((t.store false).getLocations t.db [[1]]).1 = [some ⟨0, 0, 4⟩] := by
  have executed : ((replay SharedStore.step (.init .empty fun _ => mixedConfig false) staleTape).map
      fun s => (s.step (.delete false [[1]])).map fun t =>
        ((t.store false).getLocations t.db [[1]]).1) = some (some [some ⟨0, 0, 4⟩]) := by decide
  obtain ⟨s, replayed, observed⟩ := Option.map_eq_some_iff.mp executed
  obtain ⟨t, moved, located⟩ := Option.map_eq_some_iff.mp observed
  exact ⟨s, t, Run.of_replay replayed, moved, located⟩

theorem delete_forgets_iff_stored : ∃ s t : SharedStore Bool,
    s.step (.delete false [[1]]) = some t ∧ (Forgotten t false [[1]] ↔ Indexed s false [[1]]) := by
  have executed : (replay SharedStore.step (.init .empty fun _ => mixedConfig false)
      (staleTape.take 2 ++ .delete false [[1]] :: [])).isSome = true := by decide
  obtain ⟨u, replayed⟩ := Option.isSome_iff_exists.mp executed
  obtain ⟨s, t, _, moved, _, exactly, _⟩ := delete_forgets_iff (Run.of_replay replayed)
  exact ⟨s, t, moved, exactly⟩

end SharedStore

end KVTiering.Soundness
