import KVTiering.Soundness.LookupFreshness

/-! # Lookups after a delete

Deleting a key takes its row, its cached position and its file, but not the result that the lookup manager keeps
for it while requests wait. If that result is a hit, it goes on to be told; if not, the key does not hit again
until it is stored again.
-/

namespace KVTiering.Soundness

open Model

namespace FileSystemTier

open Model.FileSystemTier

/-- The call commits a row for the key. -/
def StoresRow (key : OffloadKey) : StoreCall → Prop
  | .completeStore plan success => success = true ∧ key ∈ plan.entries.map SegmentWrite.key
  | .completeRaised plan _ => key ∈ plan.entries.map SegmentWrite.key
  | _ => False

/-- The step completes a store of the key. -/
def Stores (fileName : OffloadKey → String) (key : OffloadKey) : TierEvent → Prop
  | .store call => StoresRow key call
  | .writeFile other => fileName other = fileName key
  | _ => False

theorem contains_indexPlan {db : Database} {blockSize : ℕ} {plan : SegmentStorePlan} {key : OffloadKey}
    (row : (db.indexPlan blockSize plan).blocks.contains key = true) :
    db.blocks.contains key = true ∨ key ∈ plan.entries.map SegmentWrite.key := by
  obtain ⟨location, found⟩ := Option.isSome_iff_exists.mp row
  rcases SharedStore.row_of_indexPlan found with old | ⟨entry, member, same, -⟩
  · exact .inl (Option.isSome_iff_exists.mpr ⟨location, old⟩)
  · exact .inr (List.mem_map.mpr ⟨entry, member, same⟩)

theorem contains_delete (store : SegmentStore) {db : Database} {keys : List OffloadKey} {key : OffloadKey}
    (row : (store.delete db keys).2.1.blocks.contains key = true) : db.blocks.contains key = true := by
  rw [Dict.contains, SegmentStore.delete_blocks] at row
  split at row
  · cases row
  · exact row

/-- A call leaves a row only where there was one, or commits it. -/
theorem contains_of_call {s : SoleStore} {call : StoreCall} {key : OffloadKey}
    (row : (s.call call).db.blocks.contains key = true) :
    s.db.blocks.contains key = true ∨ StoresRow key call := by
  cases call with
  | getLocations keys => exact .inl row
  | prepareStore keys blockIds =>
    simp only [SoleStore.call] at row
    split at row
    · exact .inl row
    · next returned =>
      rw [prepareStore_blocks returned] at row
      exact .inl row
  | prepareRaised keys => exact .inl row
  | completeStore plan success =>
    simp only [SoleStore.call, SegmentStore.completeStore] at row
    split at row
    · exact .inl row
    · next done =>
      have success : success = true := by
        cases success <;> simp at done ⊢
      exact (contains_indexPlan row).imp id fun planned => ⟨success, planned⟩
  | completeRaised plan read => exact contains_indexPlan row
  | loadMany viewSize maxBuffers keys blockIds locations failed =>
    left
    simp only [SoleStore.call] at row
    obtain ⟨store', -, same⟩ := loadMany_cases s.store s.db viewSize maxBuffers keys blockIds locations failed
    rcases same with same | same <;> rw [same] at row
    · exact row
    · exact contains_delete _ row
  | delete keys => exact .inl (contains_delete s.store row)

variable {fileName : OffloadKey → String} {tier tier' : FileSystemTier} {event : TierEvent} {key : OffloadKey}

/-- A step leaves a key without a row, if it does not store it. -/
theorem Moves.noRow (moves : Moves fileName tier event tier') (others : ¬Stores fileName key event)
    (noRow : ¬HasRow tier key) : ¬HasRow tier' key := by
  have called : ∀ call, ¬StoresRow key call → ∀ segmentStore : Option SoleStore,
      segmentStore = tier.segmentStore.map (fun segments => segments.call call) →
      ¬∃ segments ∈ segmentStore, segments.db.blocks.contains key = true := by
    rintro call quiet _ rfl ⟨segments, listed, row⟩
    obtain ⟨before, store, rfl⟩ := Option.mem_map.mp listed
    rcases contains_of_call row with old | stored
    · exact noRow ⟨before, store, old⟩
    · exact quiet stored
  cases moves with
  | manager => exact noRow
  | answered => exact noRow
  | raised => exact noRow
  | started _ asked => exact called (.getLocations _) (fun stored => stored) _ asked
  | checked => exact noRow
  | @stored _ call _ _ made same =>
    refine called call (fun stored => others ?_) _ same
    cases event with
    | store made' =>
      obtain rfl := Option.some.inj made
      exact stored
    | delete keys =>
      obtain rfl := Option.some.inj made
      exact stored
    | _ => cases made
  | filed => exact noRow

/-- A step leaves a key without a file, if it does not store it. -/
theorem Moves.noFile (moves : Moves fileName tier event tier') (others : ¬Stores fileName key event)
    (noFile : fileName key ∉ tier.files) : fileName key ∉ tier'.files := by
  cases moves with
  | manager => exact noFile
  | answered => exact noFile
  | raised => exact noFile
  | started => exact noFile
  | checked => exact noFile
  | stored => exact noFile
  | filed changed =>
    intro file
    rcases changed with fewer | ⟨other, rfl, rfl⟩
    · exact noFile (fewer file)
    · rcases Finset.mem_insert.mp file with same | old
      · exact others same.symm
      · exact noFile old

/-- The key is nowhere in the tier: no row, no file, and no result or hit of the worker says that it hits. -/
structure Gone (fileName : OffloadKey → String) (key : OffloadKey) (tier : FileSystemTier) : Prop where
  noRow : ¬HasRow tier key
  noFile : fileName key ∉ tier.files
  vouched : AsyncLookup.Vouched (fun other hit _ => other = key → hit = false) tier.lookupManager
  hits : ∀ frame ∈ tier.batchLookup, ∀ (index : ℕ) (query : LookupQuery), (group tier)[index]? = some query →
    query.key = key → frame.segmentHits[index]? ≠ some true

theorem Gone.moves (gone : Gone fileName key tier) (inv : Inv tier) (moves : Moves fileName tier event tier')
    (others : ¬Stores fileName key event) : Gone fileName key tier' := by
  refine ⟨moves.noRow others gone.noRow, moves.noFile others gone.noFile, ?_, ?_⟩
  · rcases moves.manager_step inv with ⟨call, stepped, origin⟩ | same
    · apply gone.vouched.step stepped
      intro outcome answering answer member same
      rcases origin with ⟨-, other⟩ | ⟨segmentHits, asked, rfl⟩ | ⟨-, rfl⟩
      · exact absurd answering (other outcome)
      · obtain rfl := LookupEvent.answerGroup.inj answering
        obtain ⟨index, query, hit, query_at, hit_at, rfl⟩ := AsyncLookup.mem_answers member
        have noHit := gone.hits _ asked index query query_at same
        rw [hit_at, ne_eq, Option.some.injEq, Bool.not_eq_true] at noHit
        exact noHit
      · obtain rfl := LookupEvent.answerGroup.inj answering
        exact AsyncLookup.hit_of_raised member
    · rw [same]
      exact gone.vouched
  · intro frame inside index query query_at about hit_at
    obtain ⟨same, before | starts | ⟨segmentHits, other, checked, rest, asked, rfl⟩⟩ :=
      moves.batchLookup_cases inv inside
    · rw [same] at query_at
      exact gone.hits frame before index query query_at about hit_at
    · rw [same] at query_at
      rw [starts.segmentHits, List.getElem?_map, query_at, Option.map_some, Option.some.injEq, about] at hit_at
      exact gone.noRow (of_decide_eq_true hit_at)
    · rw [same] at query_at
      rcases eq_or_ne index checked with rfl | differ
      · obtain ⟨first, first_at, firstKey⟩ := (inv.asking _ asked).listed _ (List.mem_cons_self ..)
        obtain rfl := Option.some.inj (query_at.symm.trans first_at)
        obtain rfl : other = key := firstKey.symm.trans about
        have bound := (List.getElem?_eq_some_iff.mp hit_at).1
        rw [List.length_set] at bound
        rw [List.getElem?_set_self bound, Option.some.injEq] at hit_at
        exact gone.noFile (of_decide_eq_true hit_at)
      · rw [List.getElem?_set_ne (Ne.symm differ)] at hit_at
        exact gone.hits _ asked index query query_at about hit_at

/-! ## While a delete is running -/

theorem lookupState_getBatch {m m' : AsyncLookupManager} (moved : m.getBatch = some m') :
    m'.lookupState = m.lookupState := by
  unfold AsyncLookupManager.getBatch at moved
  split at moved
  · obtain rfl := Option.some.inj moved
    rfl
  · obtain rfl := Option.some.inj moved
    rfl
  · cases moved

theorem lookupState_answerGroup {m m' : AsyncLookupManager} {outcome : Option (List Bool)}
    (moved : m.answerGroup outcome = some m') : m'.lookupState = m.lookupState := by
  unfold AsyncLookupManager.answerGroup at moved
  split at moved
  · obtain rfl := Option.some.inj moved
    rfl
  · cases moved

theorem lookupState_postResults {m m' : AsyncLookupManager} (moved : m.postResults = some m') :
    m'.lookupState = m.lookupState := by
  unfold AsyncLookupManager.postResults at moved
  split at moved
  · obtain rfl := Option.some.inj moved
    rfl
  · cases moved

/-- A round of the loop in `delete`. -/
structure Unlinks (fileName : OffloadKey → String) (deletion deletion' : Deletion) (files : Finset String) : Prop where
  fewer : ∀ other ∈ deletion'.keyList, other ∈ deletion.keyList
  removed : ∀ other ∈ deletion'.removedKeys, other ∈ deletion.removedKeys ∨
    other ∈ deletion.keyList ∧ fileName other ∉ files

/-- One round of the loop. -/
theorem unlink_cases {deletion : Deletion} {failed : Bool} (inside : tier.deletion = some deletion)
    (moved : tier.unlink fileName failed = some tier') : ∃ other rest, deletion.keyList = other :: rest ∧
      (failed = true ∧ tier' = { tier with deletion := some ⟨rest, deletion.deletedKeys, deletion.removedKeys⟩ } ∨
        failed = false ∧ fileName other ∈ tier.files ∧ tier' = { tier with
          files := tier.files.erase (fileName other)
          deletion := some ⟨rest, insert other deletion.deletedKeys, insert other deletion.removedKeys⟩ } ∨
        failed = false ∧ fileName other ∉ tier.files ∧ tier' = { tier with
          deletion := some ⟨rest, deletion.deletedKeys, insert other deletion.removedKeys⟩ }) := by
  rw [unlink, inside] at moved
  obtain ⟨keyList, deletedKeys, removedKeys⟩ := deletion
  cases keyList with
  | nil => cases moved
  | cons other rest =>
    refine ⟨other, rest, rfl, ?_⟩
    dsimp only at moved
    split_ifs at moved with noted present
    · exact .inl ⟨noted, (Option.some.inj moved).symm⟩
    · exact .inr (.inl ⟨Bool.eq_false_of_not_eq_true noted, present, (Option.some.inj moved).symm⟩)
    · exact .inr (.inr ⟨Bool.eq_false_of_not_eq_true noted, present, (Option.some.inj moved).symm⟩)

/-- The files after a step outside of the loop. -/
def FilesMove (fileName : OffloadKey → String) (files files' : Finset String) : TierEvent → Prop
  | .writeFile other => files' = insert (fileName other) files
  | .removeFile other => files' = files.erase (fileName other)
  | _ => files' = files

/-- The tables and the cache after a step outside of the loop. -/
def StoreMoves (segmentStore segmentStore' : Option SoleStore) : TierEvent → Prop
  | .store call => segmentStore' = segmentStore.map fun segments => segments.call call
  | .startBatchLookup => ∃ keys, segmentStore' = segmentStore.map fun segments => segments.call (.getLocations keys)
  | _ => segmentStore' = segmentStore

/-- Until `delete` returns, no other step of the scheduler thread comes in between: the entries of the lookup
manager stay, and only the loop changes its variables. -/
theorem meanwhile_cases {deletion : Deletion} (inside : tier.deletion = some deletion)
    (moved : step fileName tier event = some tier') (goesOn : event ≠ .returnDelete)
    (outside : ∀ failed, event ≠ .unlink failed) :
    tier'.lookupManager.lookupState = tier.lookupManager.lookupState ∧ tier'.deletion = some deletion ∧
      FilesMove fileName tier.files tier'.files event ∧ StoreMoves tier.segmentStore tier'.segmentStore event := by
  have busy : tier.deletion.isNone = false := by rw [inside]; rfl
  cases event with
  | lookup key reqContext => simp [step, busy] at moved
  | onScheduleEnd => simp [step, busy] at moved
  | onRequestFinished reqContext => simp [step, busy] at moved
  | delete keys => simp [step, busy] at moved
  | unlink failed => exact absurd rfl (outside failed)
  | returnDelete => exact absurd rfl goesOn
  | store call =>
    obtain ⟨segments, store, rfl⟩ := Option.map_eq_some_iff.mp moved
    exact ⟨rfl, inside, rfl, by rw [store]; rfl⟩
  | writeFile other =>
    obtain rfl := Option.some.inj moved
    exact ⟨rfl, inside, rfl, rfl⟩
  | removeFile other =>
    obtain rfl := Option.some.inj moved
    exact ⟨rfl, inside, rfl, rfl⟩
  | getBatch =>
    obtain ⟨lookupManager, got, rfl⟩ := Option.map_eq_some_iff.mp moved
    exact ⟨lookupState_getBatch got, inside, rfl, rfl⟩
  | startBatchLookup =>
    simp only [step, startBatchLookup, Option.ite_none_left_eq_some] at moved
    obtain ⟨-, same⟩ := moved
    split at same
    · next noStore =>
      obtain rfl := Option.some.inj same
      exact ⟨rfl, inside, rfl, [], by rw [noStore]; rfl⟩
    · next segments store =>
      obtain rfl := Option.some.inj same
      exact ⟨rfl, inside, rfl, _, by rw [store]; rfl⟩
  | checkFile =>
    simp only [step, checkFile] at moved
    split at moved
    · obtain rfl := Option.some.inj moved
      exact ⟨rfl, inside, rfl, rfl⟩
    · cases moved
  | endBatchLookup =>
    simp only [step, endBatchLookup] at moved
    split at moved
    · obtain ⟨lookupManager, answered, rfl⟩ := Option.map_eq_some_iff.mp moved
      exact ⟨lookupState_answerGroup answered, inside, rfl, rfl⟩
    · cases moved
  | raiseBatchLookup =>
    obtain ⟨lookupManager, answered, rfl⟩ := Option.map_eq_some_iff.mp moved
    exact ⟨lookupState_answerGroup answered, inside, rfl, rfl⟩
  | postResults =>
    obtain ⟨lookupManager, posted, rfl⟩ := Option.map_eq_some_iff.mp moved
    exact ⟨lookupState_postResults posted, inside, rfl, rfl⟩

/-- Only the loop changes its variables. -/
theorem deleting_cases {deletion : Deletion} (inside : tier.deletion = some deletion)
    (moved : step fileName tier event = some tier') (goesOn : event ≠ .returnDelete) :
    tier'.lookupManager.lookupState = tier.lookupManager.lookupState ∧
      ∃ deletion', tier'.deletion = some deletion' ∧ Unlinks fileName deletion deletion' tier'.files := by
  by_cases loops : ∃ failed, event = .unlink failed
  · obtain ⟨failed, rfl⟩ := loops
    obtain ⟨other, rest, list, ⟨-, rfl⟩ | ⟨-, -, rfl⟩ | ⟨-, absent, rfl⟩⟩ := unlink_cases inside moved
    · exact ⟨rfl, _, rfl, fun _ member => list ▸ List.mem_cons_of_mem _ member, fun _ member => .inl member⟩
    · refine ⟨rfl, _, rfl, fun _ member => list ▸ List.mem_cons_of_mem _ member, fun removed member => ?_⟩
      rcases Finset.mem_insert.mp member with rfl | old
      · exact .inr ⟨list ▸ List.mem_cons_self .., Finset.notMem_erase _ _⟩
      · exact .inl old
    · refine ⟨rfl, _, rfl, fun _ member => list ▸ List.mem_cons_of_mem _ member, fun removed member => ?_⟩
      rcases Finset.mem_insert.mp member with rfl | old
      · exact .inr ⟨list ▸ List.mem_cons_self .., absent⟩
      · exact .inl old
  · obtain ⟨entries, same, -⟩ := meanwhile_cases inside moved goesOn fun failed unlinks => loops ⟨failed, unlinks⟩
    exact ⟨entries, deletion, same, fun _ member => member, fun _ member => .inl member⟩

/-- What a delete that is running has achieved for a key. -/
structure Deleting (fileName : OffloadKey → String) (keys : List OffloadKey) (key : OffloadKey)
    (lookupState : Dict OffloadKey LookupState) (tier : FileSystemTier) : Prop where
  inv : Inv tier
  running : ∃ deletion, tier.deletion = some deletion ∧ (∀ other ∈ deletion.keyList, other ∈ keys) ∧
    (key ∈ deletion.removedKeys → key ∈ keys ∧ fileName key ∉ tier.files)
  noRow : key ∈ keys → ¬HasRow tier key
  entries : tier.lookupManager.lookupState = lookupState

theorem Deleting.begins (inv : Inv tier) {keys : List OffloadKey} (key : OffloadKey)
    (called : step fileName tier (.delete keys) = some tier') :
    Deleting fileName keys key tier.lookupManager.lookupState tier' := by
  have inv' := inv.moves (step_moves inv called)
  simp only [step, Option.ite_none_right_eq_some, delete] at called
  obtain ⟨-, same⟩ := called
  obtain rfl := Option.some.inj same
  cases store : tier.segmentStore with
  | none =>
    simp only [store] at inv' ⊢
    refine ⟨inv', ⟨_, rfl, fun _ member => member, fun absurd => ?_⟩, fun _ => not_hasRow rfl key, rfl⟩
    simp at absurd
  | some segments =>
    simp only [store] at inv' ⊢
    refine ⟨inv', ⟨_, rfl, fun _ member => member, fun absurd => ?_⟩, fun member => ?_, rfl⟩
    · simp at absurd
    · rw [hasRow_iff rfl]
      simp [Dict.contains, SegmentStore.delete_blocks, member]

theorem Deleting.goesOn {keys : List OffloadKey} {lookupState : Dict OffloadKey LookupState}
    (deleting : Deleting fileName keys key lookupState tier) (moved : step fileName tier event = some tier')
    (goesOn : event ≠ .returnDelete) (others : ¬Stores fileName key event) :
    Deleting fileName keys key lookupState tier' := by
  have moves := step_moves deleting.inv moved
  obtain ⟨deletion, inside, listed, removed⟩ := deleting.running
  obtain ⟨entries, deletion', inside', unlinks⟩ := deleting_cases inside moved goesOn
  refine ⟨deleting.inv.moves moves, ⟨deletion', inside', ?_, ?_⟩, ?_, entries.trans deleting.entries⟩
  · exact fun other member => listed other (unlinks.fewer other member)
  · intro member
    rcases unlinks.removed key member with old | ⟨next, noFile⟩
    · exact ⟨(removed old).1, moves.noFile others (removed old).2⟩
    · exact ⟨listed key next, noFile⟩
  · exact fun member => moves.noRow others (deleting.noRow member)

/-! ## After the delete -/

/-- The lookup manager has a result for the key that says it hits. -/
def HeldHit (tier : FileSystemTier) (key : OffloadKey) : Prop :=
  ∃ state, tier.lookupManager.lookupState.get? key = some state ∧ state.result = some true

theorem returnDelete_eq {result : TierDeleteResult} (returned : tier.returnDelete = some (result, tier')) :
    tier' = { tier with deletion := none } ∧
      ∃ deletion, tier.deletion = some deletion ∧ result.removedKeys = deletion.removedKeys := by
  unfold returnDelete at returned
  split at returned
  · next inside =>
    obtain ⟨rfl, rfl⟩ := Prod.mk.inj (Option.some.inj returned)
    exact ⟨rfl, _, inside, rfl⟩
  · cases returned

/-- When `delete` returns, a key that no lookup is in flight for and that has no hit as its result is gone. -/
theorem Deleting.gone {keys : List OffloadKey} {lookupState : Dict OffloadKey LookupState}
    (deleting : Deleting fileName keys key lookupState tier)
    (known : AsyncLookup.Vouched (fun _ _ _ => True) tier.lookupManager) {result : TierDeleteResult}
    (returned : tier.returnDelete = some (result, tier')) (removed : key ∈ result.removedKeys)
    (idle : ¬AsyncLookup.Underway tier.lookupManager key) (noHit : ¬HeldHit tier key) :
    Gone fileName key tier' := by
  obtain ⟨rfl, deletion, inside, removedKeys⟩ := returnDelete_eq returned
  obtain ⟨deletion', inside', -, taken⟩ := deleting.running
  obtain rfl := Option.some.inj (inside.symm.trans inside')
  obtain ⟨listed, noFile⟩ := taken (removedKeys ▸ removed)
  refine ⟨deleting.noRow listed, noFile, ?_, ?_⟩
  · constructor
    · intro other state hit found known'
      obtain ⟨number, answered, -⟩ := known.entries other state hit found known'
      refine ⟨number, answered, ?_⟩
      rintro rfl
      rw [← Bool.not_eq_true]
      rintro rfl
      exact noHit ⟨state, found, known'⟩
    · rintro results posted answer member rfl
      exact absurd (.inr (.inr (.inr ⟨results, posted, List.mem_map_of_mem member⟩))) idle
    · rintro answer member rfl
      exact absurd (.inr (.inr (.inl (AsyncLookup.pending_of_result deleting.inv.lookups member)))) idle
  · rintro frame - index query query_at rfl
    have pending := AsyncLookup.pending_of_group deleting.inv.lookups (List.mem_of_getElem? query_at)
    exact absurd (.inr (.inr (.inl (List.mem_map_of_mem pending)))) idle

/-- A key that is gone does not hit. -/
theorem Gone.lookup (gone : Gone fileName key tier) (reqContext : ReqContext) :
    (tier.lookup key reqContext).1 ≠ .hit := by
  intro hit
  have answer : (tier.lookup key reqContext).1 = if true then .hit else .miss := hit
  obtain ⟨state, found, known⟩ := entry_of_answer answer
  obtain ⟨-, -, absurd⟩ := (gone.vouched.lookup key reqContext).entries key state true found known
  cases absurd rfl

/-- A hit that is held is told to whoever asks, if no other result is on its way. -/
theorem HeldHit.lookup (held : HeldHit tier key) (idle : ¬AsyncLookup.Underway tier.lookupManager key)
    (reqContext : ReqContext) : (tier.lookup key reqContext).1 = .hit := by
  obtain ⟨state, found, hit⟩ := held
  have noAnswer : AsyncLookup.lastAnswer tier.lookupManager.pendingResults.flatten key = none := by
    rw [AsyncLookup.lastAnswer_eq_none_iff]
    rintro member
    obtain ⟨answer, listed, rfl⟩ := List.mem_map.mp member
    obtain ⟨results, posted, inside⟩ := List.mem_flatten.mp listed
    exact idle (.inr (.inr (.inr ⟨results, posted, List.mem_map_of_mem inside⟩)))
  have drained : tier.lookupManager.drainResults.lookupState.get? key = some state := by
    rw [AsyncLookup.get?_drainResults, found, noAnswer]
    rfl
  have answer : (tier.lookupManager.lookup key reqContext).1 = some true := by
    rw [AsyncLookupManager.lookup, AsyncLookupManager.track, drained]
    exact hit
  simp only [Model.FileSystemTier.lookup, answer, if_true]

theorem run_known {segments : Option (Database × SegmentConfig)} {files : Finset String} {events : List TierEvent}
    (run : Run (Steps (step fileName)) (init segments files) events tier) :
    AsyncLookup.Vouched (fun _ _ _ => True) tier.lookupManager := by
  refine run.invariant (fun _ tier => AsyncLookup.Vouched (fun _ _ _ => True) tier.lookupManager)
    AsyncLookup.vouched_init ?_
  intro past source event target before known moved
  have inv := run_inv before
  rcases (step_moves inv moved).manager_step inv with ⟨call, stepped, -⟩ | same
  · exact known.step stepped fun _ _ _ _ => trivial
  · rw [same]
    exact known

/-- A delete that removes a key while no store and no lookup of it is in flight: from its return on, no lookup
hits until the key is stored, exactly if the lookup manager held no hit for the key when `delete` was called. -/
theorem deleted_misses_iff {segments : Option (Database × SegmentConfig)} {files : Finset String}
    {before inside : List TierEvent} {keys : List OffloadKey} {called begun final after : FileSystemTier}
    {result : TierDeleteResult} (run : Run (Steps (step fileName)) (init segments files) before called)
    (calls : step fileName called (.delete keys) = some begun)
    (during : Run (Steps (step fileName)) begun inside final)
    (deleting : ∀ event ∈ inside, event ≠ .returnDelete ∧ ¬Stores fileName key event)
    (returned : final.returnDelete = some (result, after)) (removed : key ∈ result.removedKeys)
    (idle : ¬AsyncLookup.Underway after.lookupManager key) :
    (∀ events later, Run (Steps (step fileName)) after events later → (∀ event ∈ events, ¬Stores fileName key event) →
      ∀ reqContext, later.deletion = none → (later.lookup key reqContext).1 ≠ .hit) ↔ ¬HeldHit called key := by
  have deleted : Deleting fileName keys key called.lookupManager.lookupState final := by
    apply during.preserves _ (Deleting.begins (run_inv run) key calls)
    intro source event target member running moved
    exact running.goesOn moved (deleting event member).1 (deleting event member).2
  have whole := (run.append (.single calls)).append during
  have inv : Inv after := by
    have ends : step fileName final .returnDelete = some after := by rw [step, returned]; rfl
    exact deleted.inv.moves (step_moves deleted.inv ends)
  obtain ⟨rfl, -⟩ := returnDelete_eq returned
  have same : HeldHit final key ↔ HeldHit called key := by rw [HeldHit, HeldHit, deleted.entries]
  rw [← same]
  constructor
  · intro never held
    have heldAfter : HeldHit { final with deletion := none } key := held
    exact never [] _ .nil (by simp) (request "") rfl (heldAfter.lookup idle (request ""))
  · intro noHit events later afterwards quiet reqContext _
    have gone := deleted.gone (run_known whole) returned removed idle noHit
    have kept : Inv later ∧ Gone fileName key later := by
      refine afterwards.preserves (fun tier => Inv tier ∧ Gone fileName key tier) ⟨inv, gone⟩ ?_
      rintro source event target member ⟨inv, gone⟩ moved
      have moves := step_moves inv moved
      exact ⟨inv.moves moves, gone.moves inv moves (quiet event member)⟩
    exact kept.2.lookup reqContext

/-- A request is told of a hit before its key is deleted. -/
def heldBefore : List TierEvent :=
  [.store (.prepareStore [[1]] [0]), .store (.completeStore ⟨[⟨[1], 0, 0, 0⟩]⟩ true), .lookup [1] (request "r1"),
    .onScheduleEnd, .getBatch, .startBatchLookup, .endBatchLookup, .postResults, .lookup [1] (request "r1")]

/-- The queries and the posted results in flight. -/
def inFlight (tier : FileSystemTier) : ℕ :=
  tier.lookupManager.lookupBatch.length + tier.lookupManager.lookupQueue.length +
    (AsyncLookup.pendingOf tier.lookupManager.worker).length + tier.lookupManager.pendingResults.length

theorem not_underway (idle : inFlight tier = 0) (key : OffloadKey) :
    ¬AsyncLookup.Underway tier.lookupManager key := by
  simp only [inFlight, Nat.add_eq_zero_iff, List.length_eq_zero_iff] at idle
  obtain ⟨⟨⟨batch, queue⟩, pending⟩, results⟩ := idle
  simp [AsyncLookup.Underway, batch, queue, pending, results]

/-- The deleted key still hits, for the request that waits and for a new one. -/
theorem deleted_still_hits : ∃ called begun final after : FileSystemTier, ∃ result : TierDeleteResult,
    replay (step keyName) (init emptyStore ∅) heldBefore = some called ∧
      step keyName called (.delete [[1]]) = some begun ∧ replay (step keyName) begun [.unlink false] = some final ∧
      final.returnDelete = some (result, after) ∧ [1] ∈ result.removedKeys ∧
      ¬AsyncLookup.Underway after.lookupManager [1] ∧ ¬Durable keyName after [1] ∧
      (after.lookup [1] (request "r1")).1 = .hit ∧ (after.lookup [1] (request "r2")).1 = .hit := by
  have executed : ((replay (step keyName) (init emptyStore ∅) heldBefore).bind fun called =>
      (step keyName called (.delete [[1]])).bind fun begun =>
        (replay (step keyName) begun [.unlink false]).bind fun final => final.returnDelete.map fun returned =>
          (decide ([1] ∈ returned.1.removedKeys), inFlight returned.2, decide (Durable keyName returned.2 [1]),
            (returned.2.lookup [1] (request "r1")).1, (returned.2.lookup [1] (request "r2")).1)) =
      some (true, 0, false, .hit, .hit) := by decide
  obtain ⟨called, first, executed⟩ := Option.bind_eq_some_iff.mp executed
  obtain ⟨begun, calls, executed⟩ := Option.bind_eq_some_iff.mp executed
  obtain ⟨final, during, executed⟩ := Option.bind_eq_some_iff.mp executed
  obtain ⟨⟨result, after⟩, returned, facts⟩ := Option.map_eq_some_iff.mp executed
  simp only [Prod.mk.injEq, decide_eq_true_eq, decide_eq_false_iff_not] at facts
  obtain ⟨removed, idle, absent, told, newly⟩ := facts
  exact ⟨called, begun, final, after, result, first, calls, during, returned, removed, not_underway idle _, absent,
    told, newly⟩

/-- The same delete before any request has asked for the key. -/
theorem deleted_misses_unasked : ∃ called begun final after : FileSystemTier, ∃ result : TierDeleteResult,
    replay (step keyName) (init emptyStore ∅) (heldBefore.take 2) = some called ∧
      step keyName called (.delete [[1]]) = some begun ∧ replay (step keyName) begun [.unlink false] = some final ∧
      final.returnDelete = some (result, after) ∧
      ∀ events later, Run (Steps (step keyName)) after events later →
        (∀ event ∈ events, ¬Stores keyName [1] event) → ∀ reqContext, later.deletion = none →
          (later.lookup [1] reqContext).1 ≠ .hit := by
  have executed : ((replay (step keyName) (init emptyStore ∅) (heldBefore.take 2)).bind fun called =>
      (step keyName called (.delete [[1]])).bind fun begun =>
        (replay (step keyName) begun [.unlink false]).bind fun final => final.returnDelete.map fun returned =>
          ((called.lookupManager.lookupState.get? [1]).isNone, decide ([1] ∈ returned.1.removedKeys),
            inFlight returned.2)) = some (true, true, 0) := by decide
  obtain ⟨called, first, executed⟩ := Option.bind_eq_some_iff.mp executed
  obtain ⟨begun, calls, executed⟩ := Option.bind_eq_some_iff.mp executed
  obtain ⟨final, during, executed⟩ := Option.bind_eq_some_iff.mp executed
  obtain ⟨⟨result, after⟩, returned, facts⟩ := Option.map_eq_some_iff.mp executed
  simp only [Prod.mk.injEq, decide_eq_true_eq, Option.isNone_iff_eq_none] at facts
  obtain ⟨unasked, removed, idle⟩ := facts
  refine ⟨called, begun, final, after, result, first, calls, during, returned, ?_⟩
  apply (deleted_misses_iff (.of_replay first) calls (.of_replay during) ?_ returned removed (not_underway idle _)).mpr
  · rintro ⟨state, found, -⟩
    rw [unasked] at found
    cases found
  · intro event member
    obtain rfl := List.mem_singleton.mp member
    exact ⟨by simp, fun stored => stored⟩

end FileSystemTier

end KVTiering.Soundness
