import KVTiering.Model.SharedStore
import KVTiering.Soundness.Allocation
import Mathlib.Data.List.Pairwise
import Mathlib.Tactic.FinCases

/-! # Allocation and durability on a shared directory

Whatever the processes do, issued extents never overlap, neither each other nor a row of the index.
A completed store is durable exactly when no key of it was cached without a row at the time it was
prepared: a position cached before another process deleted the row keeps the key out of the plan.
-/

namespace KVTiering.Soundness

open Model

/-! ### What `prepare_store` returns -/

/-- Both ways in which `prepare_store` can return: every key is visible and nothing is planned, or
the invisible keys are reserved. -/
theorem prepareStore_cases {store store' : SegmentStore} {db db' : Database}
    {keys : List OffloadKey} {blockIds : List ℕ} {plan : SegmentStorePlan}
    (returned : store.prepareStore db keys blockIds = .ok (plan, db', store')) :
    store' = (store.getLocations db keys).2 ∧
      ((plan = ⟨[]⟩ ∧ db' = db) ∨ ∃ unique, (plan, db') = db.reserve store.config unique) := by
  unfold SegmentStore.prepareStore at returned
  split at returned
  · cases returned
  · split at returned
    · next noKeys =>
      have nil : keys = [] := List.isEmpty_iff.mp noKeys
      subst nil
      cases returned
      exact ⟨by rw [SegmentStore.getLocations_nil], .inl ⟨rfl, rfl⟩⟩
    · dsimp only at returned
      split at returned
      · cases returned
        exact ⟨rfl, .inl ⟨rfl, rfl⟩⟩
      · cases returned
        exact ⟨rfl, .inr ⟨_, rfl⟩⟩

/-- Preparing a store leaves the rows. -/
theorem prepareStore_blocks {store store' : SegmentStore} {db db' : Database} {keys : List OffloadKey}
    {blockIds : List ℕ} {plan : SegmentStorePlan}
    (returned : store.prepareStore db keys blockIds = .ok (plan, db', store')) : db'.blocks = db.blocks := by
  obtain ⟨_, ⟨_, rfl⟩ | ⟨unique, reserved⟩⟩ := prepareStore_cases returned
  · rfl
  · obtain ⟨_, rfl⟩ := Prod.mk.inj reserved
    rfl

/-- Indexing a plan leaves the rows of all keys but its own. -/
theorem get?_indexPlan_of_notMem {plan : SegmentStorePlan} {key : OffloadKey}
    (absent : key ∉ plan.entries.map SegmentWrite.key) (db : Database) (blockSize : ℕ) :
    (db.indexPlan blockSize plan).blocks.get? key = db.blocks.get? key := by
  rw [Database.get?_indexPlan, List.find?_eq_none.mpr, Option.map_none, Option.or_none]
  intro entry member same
  exact absent (List.mem_map.mpr ⟨entry, member, of_decide_eq_true same⟩)

/-- A plan has an entry for exactly the given keys that are neither cached nor indexed. -/
theorem prepareStore_plans {store store' : SegmentStore} {db db' : Database}
    {keys : List OffloadKey} {blockIds : List ℕ} {plan : SegmentStorePlan}
    (returned : store.prepareStore db keys blockIds = .ok (plan, db', store')) (key : OffloadKey) :
    (∃ entry ∈ plan.entries, entry.key = key) ↔
      key ∈ keys ∧ store.locationCache.get? key = none ∧ db.blocks.get? key = none := by
  unfold SegmentStore.prepareStore at returned
  split at returned
  · cases returned
  · next same =>
    have lengths : keys.length = blockIds.length := not_not.mp same
    rw [← contains_uniqueUnstored store db keys blockIds lengths, Dict.contains_iff, Dict.keys]
    split at returned
    · next noKeys =>
      have nil : keys = [] := List.isEmpty_iff.mp noKeys
      subst nil
      cases returned
      simp [uniqueUnstored, Dict.empty]
    · dsimp only at returned
      split at returned
      · next nothing =>
        cases returned
        simp [List.isEmpty_iff.mp nothing]
      · cases returned
        rw [← ((reserve_entries_perm db store.config _).map Prod.fst).mem_iff]
        simp [SegmentStore.containsMany_snd]

/-! ### Disjointness -/

namespace SharedStore

variable {ι : Type}

/-- The extents that must not be handed out again: all issued ones and those of the rows. -/
def Used (s : SharedStore ι) (e : Extent) : Prop :=
  (∃ issue ∈ s.issued, issue.extent = e) ∨
    ∃ key location, s.db.blocks.get? key = some location ∧ location.extent = e

/-- The invariant of every run from a database without metadata. -/
structure Safe (s : SharedStore ι) : Prop where
  tracked : Tracked s.db (Used s)
  legacy : s.db.metadata.items = [] → s.issued = []
  apart : s.issued.Pairwise fun a b => a.extent.Disjoint b.extent
  bounded : ∀ issue ∈ s.issued,
    issue.entry.offset + issue.config.blockSize ≤ issue.config.segmentSizeBytes
  planned : ∀ process, ∀ plan ∈ s.plans process, ∀ entry ∈ plan.entries,
    ∃ issue ∈ s.issued, issue.extent = entry.extent (s.store process).config.blockSize

theorem safe_init (db : Database) (config : ι → SegmentConfig) (noMetadata : db.metadata.items = []) :
    Safe (.init db config) where
  tracked := .inl ⟨noMetadata, fun e used => by simpa [Used, SharedStore.init] using used⟩
  legacy _ := rfl
  apart := List.Pairwise.nil
  bounded := by simp [SharedStore.init]
  planned := by simp [SharedStore.init]

/-- The rows of a completed plan are old rows or extents issued to the completing process. -/
theorem Safe.indexPlan_rows {s : SharedStore ι} (safe : Safe s) {process : ι}
    {plan : SegmentStorePlan} (given : plan ∈ s.plans process) {key : OffloadKey}
    {location : SegmentLocation}
    (row : (s.db.indexPlan (s.store process).config.blockSize plan).blocks.get? key = some location) :
    Used s location.extent := by
  rw [Database.get?_indexPlan, Option.or_eq_some_iff] at row
  rcases row with old | ⟨_, new⟩
  · exact .inr ⟨key, location, old, rfl⟩
  · obtain ⟨entry, found, rfl⟩ := Option.map_eq_some_iff.mp new
    exact .inl (safe.planned process plan given entry (List.mem_of_find?_eq_some found))

/-- A new plan does not overlap anything issued before, nor itself. -/
theorem apart_of_prepared {s : SharedStore ι} (safe : Safe s) {process : ι} {keys : List OffloadKey}
    {blockIds : List ℕ} {plan : SegmentStorePlan} {db : Database} {store : SegmentStore}
    (prepared : (s.store process).prepareStore s.db keys blockIds = .ok (plan, db, store)) :
    (∀ entry ∈ plan.entries, ∀ e, Used s e →
      (entry.extent (s.store process).config.blockSize).Disjoint e) ∧
    plan.entries.Pairwise fun first second => (first.extent (s.store process).config.blockSize).Disjoint
      (second.extent (s.store process).config.blockSize) := by
  obtain ⟨_, ⟨rfl, _⟩ | ⟨unique, reserved⟩⟩ := prepareStore_cases prepared
  · exact ⟨by simp, .nil⟩
  · obtain ⟨_, fresh, pairwise, _⟩ := reserve_spec safe.tracked reserved
    exact ⟨fun entry planned => (fresh entry planned).1, pairwise⟩

variable [DecidableEq ι]

/-- An operation that reserves nothing, keeps the metadata and the process's arguments, and whose
rows are old rows or issued extents. -/
theorem Safe.update {s : SharedStore ι} (safe : Safe s) {process : ι} {db : Database}
    {store : SegmentStore} (metadata : db.metadata = s.db.metadata)
    (config : store.config = (s.store process).config)
    (rows : ∀ key location, db.blocks.get? key = some location → Used s location.extent) :
    Safe (s.update process db store) where
  tracked := by
    have fewer : ∀ e, Used (s.update process db store) e → Used s e := by
      rintro e (issued | ⟨key, location, row, rfl⟩)
      · exact .inl issued
      · exact rows key location row
    rcases safe.tracked.mono fewer with ⟨legacy, _⟩ | ⟨f, describes, covers⟩
    · refine .inl ⟨metadata.symm ▸ legacy, ?_⟩
      rintro e (⟨issue, issued, _⟩ | row)
      · simp [SharedStore.update, safe.legacy legacy] at issued
      · exact row
    · exact .inr ⟨f, describes.congr metadata, covers⟩
  legacy noMetadata := safe.legacy (metadata ▸ noMetadata)
  apart := safe.apart
  bounded := safe.bounded
  planned other plan member entry inside := by
    obtain ⟨issue, issued, same⟩ := safe.planned other plan member entry inside
    refine ⟨issue, issued, same.trans ?_⟩
    by_cases equal : other = process
    · subst equal
      simp [SharedStore.update, config]
    · simp [SharedStore.update, equal]

/-- A plan the process holds after preparing is the new one or an old one. -/
theorem mem_prepared_plans {s : SharedStore ι} {process other : ι} {plan given : SegmentStorePlan}
    {db : Database} {store : SegmentStore} (member : given ∈ (s.prepared process plan db store).plans other) :
    (other = process ∧ given = plan) ∨ given ∈ s.plans other := by
  by_cases equal : other = process
  · subst equal
    simpa using member
  · exact .inr (by simpa [equal] using member)

/-- Preparing a store adds issued extents that meet nothing used before. -/
theorem Safe.prepared {s : SharedStore ι} (safe : Safe s) {process : ι} {keys : List OffloadKey}
    {blockIds : List ℕ} {plan : SegmentStorePlan} {db : Database} {store : SegmentStore}
    (returned : (s.store process).prepareStore s.db keys blockIds = .ok (plan, db, store)) :
    Safe (s.prepared process plan db store) := by
  obtain ⟨cached, planned⟩ := prepareStore_cases returned
  have config : ∀ other, ((s.prepared process plan db store).store other).config =
      (s.store other).config := by
    intro other
    by_cases equal : other = process
    · subst equal
      simp [cached]
    · simp [equal]
  have issuedOf : ∀ other, ∀ given ∈ (s.prepared process plan db store).plans other,
      ∀ entry ∈ given.entries, ∃ issue ∈ (s.prepared process plan db store).issued,
        issue.extent = entry.extent ((s.prepared process plan db store).store other).config.blockSize := by
    intro other given member entry inside
    rw [config]
    rcases mem_prepared_plans member with ⟨rfl, rfl⟩ | old
    · exact ⟨_, List.mem_append_right _ (List.mem_map_of_mem inside), rfl⟩
    · obtain ⟨issue, issued, same⟩ := safe.planned other given old entry inside
      exact ⟨issue, List.mem_append_left _ issued, same⟩
  rcases planned with ⟨rfl, rfl⟩ | ⟨unique, reserved⟩
  · refine ⟨?_, ?_, ?_, ?_, issuedOf⟩
    · exact safe.tracked.mono fun e used => by simpa [Used] using used
    · simpa using safe.legacy
    · simpa using safe.apart
    · simpa using safe.bounded
  · obtain ⟨⟨f, describes, covers, coversNew⟩, fresh, apart, blocks⟩ := reserve_spec safe.tracked reserved
    refine ⟨.inr ⟨f, describes, ?_⟩, fun noMetadata => absurd noMetadata describes.nonempty, ?_, ?_,
      issuedOf⟩
    · rintro e (⟨issue, member, rfl⟩ | ⟨key, location, row, rfl⟩)
      · rcases List.mem_append.mp member with old | new
        · exact covers _ (.inl ⟨issue, old, rfl⟩)
        · obtain ⟨entry, inside, rfl⟩ := List.mem_map.mp new
          exact coversNew entry inside
      · exact covers _ (.inr ⟨key, location, blocks ▸ row, rfl⟩)
    · refine List.pairwise_append.mpr ⟨safe.apart, List.pairwise_map.mpr apart, ?_⟩
      rintro issue old _ new
      obtain ⟨entry, inside, rfl⟩ := List.mem_map.mp new
      exact ((fresh entry inside).1 _ (.inl ⟨issue, old, rfl⟩)).symm
    · intro issue member
      rcases List.mem_append.mp member with old | new
      · exact safe.bounded issue old
      · obtain ⟨entry, inside, rfl⟩ := List.mem_map.mp new
        exact (fresh entry inside).2

/-- Every operation keeps the invariant. -/
theorem Safe.step {s t : SharedStore ι} {event : StoreEvent ι} (safe : Safe s)
    (moved : s.step event = some t) : Safe t := by
  have oldRows : ∀ key location, s.db.blocks.get? key = some location → Used s location.extent :=
    fun key location row => .inr ⟨key, location, row, rfl⟩
  cases SharedStore.moves_of_step moved with
  | getLocations => exact safe.update rfl rfl oldRows
  | prepareStore returned => exact safe.prepared returned
  | completeNothing => exact safe.update rfl rfl oldRows
  | completeStore given => exact safe.update rfl rfl fun key location row => safe.indexPlan_rows given row
  | completeRaised given => exact safe.update rfl rfl fun key location row => safe.indexPlan_rows given row
  | delete =>
    refine safe.update rfl rfl fun key location row => oldRows key location ?_
    rw [SegmentStore.delete_blocks] at row
    split at row
    · cases row
    · exact row
  | @restart process config =>
    refine ⟨safe.tracked, safe.legacy, safe.apart, safe.bounded, ?_⟩
    intro other plan member entry inside
    by_cases equal : other = process
    · subst equal
      simp at member
    · simpa [equal] using safe.planned other plan (by simpa [equal] using member) entry inside

theorem safe_of_run {db : Database} {config : ι → SegmentConfig} (noMetadata : db.metadata.items = [])
    {events : List (StoreEvent ι)} {s : SharedStore ι}
    (run : Run (Steps SharedStore.step) (.init db config) events s) : Safe s :=
  run.preserves Safe (safe_init db config noMetadata) fun _ _ _ _ safe moved => safe.step moved

/-- Allocation never overlaps, over any interleaving of the operations of any instances: issued
entries are pairwise disjoint and inside the segments of their instance, and what `prepare_store`
returns next is disjoint from every row of the index. -/
theorem allocation_disjoint {db : Database} {config : ι → SegmentConfig}
    (noMetadata : db.metadata.items = []) {events : List (StoreEvent ι)} {s : SharedStore ι}
    (run : Run (Steps SharedStore.step) (.init db config) events s) :
    (s.issued.Pairwise fun a b => a.extent.Disjoint b.extent) ∧
    (∀ issue ∈ s.issued,
      issue.entry.offset + issue.config.blockSize ≤ issue.config.segmentSizeBytes) ∧
    ∀ process keys blockIds plan db' store,
      (s.store process).prepareStore s.db keys blockIds = .ok (plan, db', store) →
        ∀ entry ∈ plan.entries, ∀ key location, s.db.blocks.get? key = some location →
          (entry.extent (s.store process).config.blockSize).Disjoint location.extent := by
  have safe := safe_of_run noMetadata run
  refine ⟨safe.apart, safe.bounded, ?_⟩
  intro process keys blockIds plan db' store returned entry inside key location row
  exact (apart_of_prepared safe returned).1 entry inside _ (.inr ⟨key, location, row, rfl⟩)

/-- Two instances that differ in every argument, on a legacy database with one row. -/
def mixedConfig : Bool → SegmentConfig
  | false => ⟨4, 12, 2, by decide, by decide, by decide, by decide⟩
  | true => ⟨3, 6, 3, by decide, by decide, by decide, by decide⟩

def legacyDatabase : Database := ⟨Dict.empty.set [7] ⟨5, 8, 4⟩, .empty⟩

def mixedTape : List (StoreEvent Bool) :=
  [.prepareStore false [[1], [2], [3]] [0, 1, 2], .prepareStore true [[4], [5]] [0, 1],
    .delete true [[7]], .restart false (mixedConfig true), .prepareStore false [[1]] [0]]

theorem allocation_disjoint_mixed : ∃ s : SharedStore Bool,
    Run (Steps SharedStore.step) (.init legacyDatabase mixedConfig) mixedTape s ∧
      s.issued.length = 6 ∧ s.issued.Pairwise fun a b => a.extent.Disjoint b.extent := by
  have executed : ((replay SharedStore.step (.init legacyDatabase mixedConfig) mixedTape).map
      fun s => s.issued.length) = some 6 := by decide
  obtain ⟨s, replayed, length⟩ := Option.map_eq_some_iff.mp executed
  have run := Run.of_replay replayed
  exact ⟨s, run, length, (allocation_disjoint rfl run).1⟩

/-! ### Durability -/

/-- The guarantee a caller of `prepare_store` counts on: once the plan is completed, and as long as
nobody deletes any of the keys in between, every key has a row. -/
def DurableStore (s : SharedStore ι) (process : ι) (keys : List OffloadKey) (blockIds : List ℕ) : Prop :=
  ∀ plan db store, (s.store process).prepareStore s.db keys blockIds = .ok (plan, db, store) →
    ∀ events t u, Run (Steps SharedStore.step) (s.prepared process plan db store) events t →
      (∀ event ∈ events, ∀ key ∈ keys, ¬ event.Deletes key) →
      t.step (.completeStore process plan true) = some u →
      ∀ key ∈ keys, u.db.blocks.contains key = true

/-- An operation that does not delete a key keeps its row. -/
theorem step_keeps_row {s t : SharedStore ι} {event : StoreEvent ι} {key : OffloadKey}
    (kept : ¬ event.Deletes key) (moved : s.step event = some t)
    (row : s.db.blocks.contains key = true) : t.db.blocks.contains key = true := by
  have indexed : ∀ blockSize plan, (s.db.indexPlan blockSize plan).blocks.contains key = true := by
    intro blockSize plan
    rw [Dict.contains, Database.get?_indexPlan, Option.isSome_or]
    exact Bool.or_eq_true_iff.mpr (.inl row)
  cases SharedStore.moves_of_step moved with
  | prepareStore returned =>
    rw [SharedStore.prepared_db, prepareStore_blocks returned]
    exact row
  | completeStore => exact indexed _ _
  | completeRaised => exact indexed _ _
  | @delete process keys =>
    change ((s.store process).delete s.db keys).2.1.blocks.contains key = true
    rw [Dict.contains, SegmentStore.delete_blocks, if_neg (show key ∉ keys from kept)]
    exact row
  | _ => exact row

/-- A row survives every run that does not delete its key. -/
theorem run_keeps_row {s t : SharedStore ι} {events : List (StoreEvent ι)} {key : OffloadKey}
    (run : Run (Steps SharedStore.step) s events t) (kept : ∀ event ∈ events, ¬ event.Deletes key)
    (row : s.db.blocks.contains key = true) : t.db.blocks.contains key = true :=
  run.preserves (fun s => s.db.blocks.contains key = true) row
    fun _ _ _ member row moved => step_keeps_row (kept _ member) moved row

/-- Completing a plan leaves a row for each of its keys. -/
theorem completeStore_indexes {s t : SharedStore ι} {process : ι} {plan : SegmentStorePlan}
    (moved : s.step (.completeStore process plan true) = some t) (key : OffloadKey) :
    t.db.blocks.contains key = (s.db.blocks.contains key ||
      plan.entries.any fun entry => entry.key = key) := by
  cases SharedStore.moves_of_step moved with
  | completeNothing given nothing =>
    have none : plan.entries = [] := nothing.resolve_left (by simp)
    simp [none]
  | completeStore =>
    simp only [SharedStore.update_db, Dict.contains, Database.get?_indexPlan, Option.isSome_or, Option.isSome_map,
      List.isSome_find?]

/-- A store is durable exactly when none of its keys is cached without a row when it is prepared. -/
theorem durableStore_iff (s : SharedStore ι) (process : ι) (keys : List OffloadKey)
    (blockIds : List ℕ) (same : keys.length = blockIds.length) :
    DurableStore s process keys blockIds ↔
      ∀ key ∈ keys, (s.store process).locationCache.contains key = true →
        s.db.blocks.contains key = true := by
  obtain ⟨⟨plan, db, store⟩, returned⟩ : ∃ result,
      (s.store process).prepareStore s.db keys blockIds = .ok result := by
    unfold SegmentStore.prepareStore
    rw [if_neg (not_not.mpr same)]
    dsimp only
    split_ifs <;> exact ⟨_, rfl⟩
  have blocks : db.blocks = s.db.blocks := prepareStore_blocks returned
  constructor
  · -- complete the plan at once: a key that is cached without a row is not in it
    intro durable key member cached
    have completed : ∃ u, (s.prepared process plan db store).step (.completeStore process plan true) =
        some u := by
      simp [SharedStore.step]
    obtain ⟨u, moved⟩ := completed
    have row := durable plan db store returned [] _ u .nil (by simp) moved key member
    rw [completeStore_indexes moved, SharedStore.prepared_db, blocks] at row
    rcases Bool.or_eq_true_iff.mp row with old | planned
    · exact old
    · obtain ⟨entry, inside, sameKey⟩ := List.any_eq_true.mp planned
      have uncached := ((prepareStore_plans returned key).mp ⟨entry, inside, by simpa using sameKey⟩).2.1
      simp [Dict.contains, uncached] at cached
  · intro visible plan' db' store' returned' events t u run kept moved key member
    obtain ⟨rfl, rfl, rfl⟩ : plan = plan' ∧ db = db' ∧ store = store' := by
      simpa using returned.symm.trans returned'
    rw [completeStore_indexes moved]
    cases row : s.db.blocks.get? key with
    | some location =>
      have before : (s.prepared process plan db store).db.blocks.contains key = true := by
        simp [blocks, Dict.contains, row]
      rw [run_keeps_row run (fun event inside => kept event inside key member) before]
      rfl
    | none =>
      have uncached : (s.store process).locationCache.get? key = none := by
        by_contra cached
        have indexed := visible key member (Option.isSome_iff_ne_none.mpr cached)
        simp [Dict.contains, row] at indexed
      obtain ⟨entry, inside, sameKey⟩ := (prepareStore_plans returned key).mpr ⟨member, uncached, row⟩
      have planned : (plan.entries.any fun entry => decide (entry.key = key)) = true :=
        List.any_eq_true.mpr ⟨entry, inside, by simpa using sameKey⟩
      rw [planned, Bool.or_true]

/-- The other instance deletes a stored block; this one, which has cached it, stores it again. -/
def staleTape : List (StoreEvent Bool) :=
  [.prepareStore false [[1]] [0], .completeStore false ⟨[⟨[1], 0, 0, 0⟩]⟩ true, .delete true [[1]]]

/-- A key cached before another process deleted its row is dropped from the plan, so completing the
plan reports success and leaves the key without a row. -/
theorem stale_cache_not_durable : ∃ s : SharedStore Bool,
    Run (Steps SharedStore.step) (.init .empty fun _ => mixedConfig false) staleTape s ∧
      ¬ DurableStore s false [[1]] [0] := by
  have executed : ((replay SharedStore.step (.init .empty fun _ => mixedConfig false) staleTape).map
      fun s => ((s.store false).locationCache.contains [1], s.db.blocks.contains [1],
        ((s.store false).prepareStore s.db [[1]] [0]).toOption.map fun result =>
          (result.1, result.2.1.blocks.contains [1]))) =
        some (true, false, some (⟨[]⟩, false)) := by decide
  obtain ⟨s, replayed, observed⟩ := Option.map_eq_some_iff.mp executed
  refine ⟨s, Run.of_replay replayed, ?_⟩
  intro durable
  cases prepared : (s.store false).prepareStore s.db [[1]] [0] with
  | error _ => simp [prepared, Except.toOption] at observed
  | ok result =>
    obtain ⟨plan, db, store⟩ := result
    simp only [prepared, Except.toOption, Option.map_some, Prod.mk.injEq, Option.some.injEq] at observed
    obtain ⟨_, _, rfl, noRow⟩ := observed
    have row := durable ⟨[]⟩ db store prepared [] _ (s.prepared false ⟨[]⟩ db store) .nil (by simp)
      (by simp [SharedStore.step, SegmentStore.completeStore, SharedStore.update, SharedStore.prepared])
      [1] (by simp)
    simp [noRow] at row

theorem durableStore_iff_fresh : DurableStore
    (SharedStore.init .empty fun _ : Bool => mixedConfig false) false [[1], [2]] [0, 1] :=
  (durableStore_iff _ _ _ _ rfl).mpr (by decide)

end SharedStore

end KVTiering.Soundness
