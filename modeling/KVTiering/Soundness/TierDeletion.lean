import KVTiering.Soundness.DeletedKeys

/-! # What a delete reports

`delete` takes the rows of its keys in one transaction and then unlinks their files one by one; each file goes, is
not there, or stays because the unlink fails. While no store of the keys is in flight, the keys it reports as
removed are those of which nothing is left, and it counts the keys of which it took something.
-/

namespace KVTiering.Soundness

open Model

namespace FileSystemTier

open Model.FileSystemTier

/-- The call may change the row of the key. -/
def TouchesRow (key : OffloadKey) : StoreCall → Prop
  | .completeStore plan _ => key ∈ plan.entries.map SegmentWrite.key
  | .completeRaised plan _ => key ∈ plan.entries.map SegmentWrite.key
  | .loadMany _ _ keys _ _ _ => key ∈ keys
  | .delete keys => key ∈ keys
  | _ => False

/-- The step of another thread may change the row or the file of the key. -/
def Touches (fileName : OffloadKey → String) (key : OffloadKey) : TierEvent → Prop
  | .store call => TouchesRow key call
  | .writeFile other | .removeFile other => fileName other = fileName key
  | _ => False

/-- The unlink of the next file fails, and not because it finds no file. -/
def unlinkFails : TierEvent → Bool
  | .unlink failed => failed
  | _ => false

/-- An unlink that fails leaves its file in place. -/
def LeavesFile (fileName : OffloadKey → String) (tier : FileSystemTier) (event : TierEvent) : Prop :=
  unlinkFails event = true → ∀ deletion ∈ tier.deletion, ∀ key ∈ deletion.keyList.head?, fileName key ∈ tier.files

instance (fileName : OffloadKey → String) (tier : FileSystemTier) (event : TierEvent) :
    Decidable (LeavesFile fileName tier event) :=
  inferInstanceAs (Decidable (unlinkFails event = true →
    ∀ deletion ∈ tier.deletion, ∀ key ∈ deletion.keyList.head?, fileName key ∈ tier.files))

theorem get?_delete (store : SegmentStore) (db : Database) {keys : List OffloadKey} {key : OffloadKey}
    (untouched : key ∉ keys) : (store.delete db keys).2.1.blocks.get? key = db.blocks.get? key := by
  rw [SegmentStore.delete_blocks, if_neg untouched]

/-- A call leaves the rows of all keys but its own. -/
theorem get?_call {s : SoleStore} {call : StoreCall} {key : OffloadKey} (untouched : ¬TouchesRow key call) :
    (s.call call).db.blocks.get? key = s.db.blocks.get? key := by
  cases call with
  | getLocations keys => rfl
  | prepareStore keys blockIds =>
    simp only [SoleStore.call]
    split
    · rfl
    · next returned => exact congrArg (fun blocks => blocks.get? key) (prepareStore_blocks returned)
  | prepareRaised keys => rfl
  | completeStore plan success =>
    simp only [SoleStore.call, SegmentStore.completeStore]
    split
    · rfl
    · exact get?_indexPlan_of_notMem untouched _ _
  | completeRaised plan read => exact get?_indexPlan_of_notMem untouched _ _
  | loadMany viewSize maxBuffers keys blockIds locations failed =>
    simp only [SoleStore.call]
    obtain ⟨store', -, same⟩ := loadMany_cases s.store s.db viewSize maxBuffers keys blockIds locations failed
    rcases same with same | same <;> rw [same]
    exact get?_delete store' s.db untouched
  | delete keys => exact get?_delete s.store s.db untouched

variable {fileName : OffloadKey → String} {tier tier' called : FileSystemTier} {event : TierEvent}
  {deletion : Deletion} {keys : List OffloadKey} {key : OffloadKey}

/-- The file of a key that no step of the other threads is about. -/
theorem file_meanwhile {files files' : Finset String} (moves : FilesMove fileName files files' event)
    (apart : ∀ other, event = .writeFile other ∨ event = .removeFile other → fileName other ≠ fileName key) :
    fileName key ∈ files' ↔ fileName key ∈ files := by
  cases event with
  | writeFile other =>
    obtain rfl := moves
    rw [Finset.mem_insert, or_iff_right (apart other (.inl rfl)).symm]
  | removeFile other =>
    obtain rfl := moves
    rw [Finset.mem_erase, and_iff_right (apart other (.inr rfl)).symm]
  | _ =>
    obtain rfl := moves
    rfl

theorem row_meanwhile (moves : StoreMoves tier.segmentStore tier'.segmentStore event)
    (untouched : ¬Touches fileName key event) : row tier' key = row tier key := by
  have called : ∀ call, ¬TouchesRow key call →
      tier'.segmentStore = tier.segmentStore.map (fun segments => segments.call call) →
      row tier' key = row tier key := by
    intro call quiet same
    rw [row, row, same]
    cases tier.segmentStore with
    | none => rfl
    | some segments => exact get?_call quiet
  cases event with
  | store call => exact called call untouched moves
  | startBatchLookup =>
    obtain ⟨keys, same⟩ := moves
    exact called (.getLocations keys) (fun touches => touches) same
  | _ =>
    rw [row, row]
    exact congrArg (Option.bind · _) moves

/-! ## The loop -/

/-- What a delete of some keys has achieved since it was called. -/
structure Reporting (fileName : OffloadKey → String) (called : FileSystemTier) (keys : List OffloadKey)
    (tier : FileSystemTier) (deletion : Deletion) : Prop where
  inv : Inv tier
  running : tier.deletion = some deletion
  listed : ∀ key ∈ deletion.keyList, key ∈ keys
  noRow : ∀ key ∈ keys, ¬HasRow tier key
  /-- no file of the keys is new -/
  held : ∀ key ∈ keys, fileName key ∈ tier.files → fileName key ∈ called.files
  removed : ∀ key ∈ deletion.removedKeys, key ∈ keys ∧ fileName key ∉ tier.files
  noted : ∀ key ∈ keys, fileName key ∉ tier.files → key ∈ deletion.keyList ∨ key ∈ deletion.removedKeys
  deleted : ∀ key, key ∈ deletion.deletedKeys ↔
    key ∈ keys ∧ (HasRow called key ∨ fileName key ∈ called.files ∧ fileName key ∉ tier.files)

/-- The keys whose rows `delete` deletes. -/
theorem mem_delete_fst {store : SegmentStore} {db : Database} :
    key ∈ (store.delete db keys).1 ↔ key ∈ keys ∧ db.blocks.contains key = true := by
  simp only [SegmentStore.delete, List.mem_toFinset]
  rw [← List.map_flatMap, List.mem_map, Dict.contains, Option.isSome_iff_exists]
  simp only [Prod.exists, mem_selected, List.mem_eraseDups, exists_and_right, exists_eq_right]
  exact and_comm

theorem Reporting.begins (inv : Inv called) (calls : step fileName called (.delete keys) = some tier) :
    ∃ deletion, Reporting fileName called keys tier deletion := by
  have inv' := inv.moves (step_moves inv calls)
  simp only [step, Option.ite_none_right_eq_some, delete] at calls
  obtain ⟨-, same⟩ := calls
  obtain rfl := Option.some.inj same
  cases store : called.segmentStore with
  | none =>
    simp only [store] at inv' ⊢
    refine ⟨_, inv', rfl, fun _ member => member, fun _ _ => not_hasRow rfl _, fun _ _ file => file,
      fun _ absurd => ?_, fun _ member _ => .inl member, fun key => ?_⟩
    · simp at absurd
    · simp only [Finset.notMem_empty, false_iff, not_hasRow store, false_or, not_and, not_not]
      exact fun _ file => file
  | some segments =>
    simp only [store] at inv' ⊢
    refine ⟨_, inv', rfl, fun _ member => member, fun key member => ?_, fun _ _ file => file,
      fun _ absurd => ?_, fun _ member _ => .inl member, fun key => ?_⟩
    · rw [hasRow_iff rfl]
      simp [Dict.contains, SegmentStore.delete_blocks, member]
    · simp at absurd
    · rw [mem_delete_fst, hasRow_iff store, and_congr_right_iff]
      exact fun _ => (or_iff_left fun both => both.2 both.1).symm

/-- A round of the loop notes what it does. -/
theorem Reporting.unlink (reporting : Reporting fileName called keys tier deletion) {failed : Bool}
    (distinct : Function.Injective fileName) (moved : step fileName tier (.unlink failed) = some tier')
    (leaves : LeavesFile fileName tier (.unlink failed)) :
    ∃ deletion', Reporting fileName called keys tier' deletion' := by
  have inv := reporting.inv.moves (step_moves reporting.inv moved)
  obtain ⟨other, rest, list, outcome⟩ := unlink_cases reporting.running moved
  have ours : other ∈ keys := reporting.listed other (list ▸ List.mem_cons_self ..)
  have listed : ∀ key ∈ rest, key ∈ keys :=
    fun key member => reporting.listed key (list ▸ List.mem_cons_of_mem _ member)
  rcases outcome with ⟨rfl, rfl⟩ | ⟨-, present, rfl⟩ | ⟨-, absent, rfl⟩
  · have present : fileName other ∈ tier.files := leaves rfl deletion reporting.running other (by rw [list]; rfl)
    refine ⟨_, inv, rfl, listed, reporting.noRow, reporting.held, reporting.removed, ?_, reporting.deleted⟩
    intro key member gone
    refine (reporting.noted key member gone).imp_left fun next => ?_
    rw [list] at next
    exact (List.mem_cons.mp next).resolve_left fun same => gone (same ▸ present)
  · have file : ∀ key, fileName key ∈ tier.files.erase (fileName other) ↔ key ≠ other ∧ fileName key ∈ tier.files := by
      intro key
      rw [Finset.mem_erase, distinct.ne_iff]
    refine ⟨_, inv, rfl, listed, reporting.noRow, ?_, ?_, ?_, ?_⟩
    · exact fun key member held => reporting.held key member ((file key).mp held).2
    · intro key member
      rcases Finset.mem_insert.mp member with rfl | old
      · exact ⟨ours, Finset.notMem_erase _ _⟩
      · obtain ⟨member, gone⟩ := reporting.removed key old
        exact ⟨member, fun held => gone ((file key).mp held).2⟩
    · intro key member gone
      rcases eq_or_ne key other with rfl | differ
      · exact .inr (Finset.mem_insert_self ..)
      · have before := reporting.noted key member fun held => gone ((file key).mpr ⟨differ, held⟩)
        rw [list] at before
        exact before.imp (fun next => (List.mem_cons.mp next).resolve_left differ) Finset.mem_insert_of_mem
    · intro key
      rw [Finset.mem_insert, reporting.deleted key]
      change _ ↔ key ∈ keys ∧ (HasRow called key ∨
        fileName key ∈ called.files ∧ fileName key ∉ tier.files.erase (fileName other))
      rw [file key]
      rcases eq_or_ne key other with rfl | differ
      · have held := reporting.held key ours present
        simp [ours, held]
      · simp [differ]
  · refine ⟨_, inv, rfl, listed, reporting.noRow, reporting.held, ?_, ?_, reporting.deleted⟩
    · intro key member
      rcases Finset.mem_insert.mp member with rfl | old
      · exact ⟨ours, absent⟩
      · exact reporting.removed key old
    · intro key member gone
      rcases eq_or_ne key other with rfl | differ
      · exact .inr (Finset.mem_insert_self ..)
      · have before := reporting.noted key member gone
        rw [list] at before
        exact before.imp (fun next => (List.mem_cons.mp next).resolve_left differ) Finset.mem_insert_of_mem

/-- What `delete` returns in the end. -/
theorem Reporting.returned (reporting : Reporting fileName called keys tier deletion) {result : TierDeleteResult}
    (returned : tier.returnDelete = some (result, tier')) : deletion.keyList = [] ∧
      result = ⟨deletion.removedKeys, deletion.deletedKeys.card⟩ ∧ tier' = { tier with deletion := none } := by
  rw [returnDelete, reporting.running] at returned
  obtain ⟨keyList, deletedKeys, removedKeys⟩ := deletion
  cases keyList with
  | nil =>
    obtain ⟨rfl, rfl⟩ := Prod.mk.inj (Option.some.inj returned)
    exact ⟨rfl, rfl, rfl⟩
  | cons => cases returned

/-! ## Other keys -/

/-- The row of a key and whether it has a file. -/
def SameCopies (fileName : OffloadKey → String) (key : OffloadKey) (tier tier' : FileSystemTier) : Prop :=
  row tier' key = row tier key ∧ (fileName key ∈ tier'.files ↔ fileName key ∈ tier.files)

theorem SameCopies.step (inside : tier.deletion = some deletion) (distinct : Function.Injective fileName)
    (other : key ∉ deletion.keyList) (moved : step fileName tier event = some tier')
    (goesOn : event ≠ .returnDelete) (untouched : ¬Touches fileName key event) :
    SameCopies fileName key tier tier' := by
  by_cases loops : ∃ failed, event = .unlink failed
  · obtain ⟨failed, rfl⟩ := loops
    obtain ⟨first, rest, list, ⟨-, rfl⟩ | ⟨-, -, rfl⟩ | ⟨-, -, rfl⟩⟩ := unlink_cases inside moved
    · exact ⟨rfl, Iff.rfl⟩
    · refine ⟨rfl, ?_⟩
      rw [Finset.mem_erase, distinct.ne_iff, and_iff_right]
      rintro rfl
      exact other (list ▸ List.mem_cons_self ..)
    · exact ⟨rfl, Iff.rfl⟩
  · obtain ⟨-, -, files, store⟩ := meanwhile_cases inside moved goesOn fun failed unlinks => loops ⟨failed, unlinks⟩
    refine ⟨row_meanwhile store untouched, file_meanwhile files ?_⟩
    rintro other (rfl | rfl) same
    · exact untouched same
    · exact untouched same

theorem SameCopies.trans {tier'' : FileSystemTier} (first : SameCopies fileName key tier tier')
    (second : SameCopies fileName key tier' tier'') : SameCopies fileName key tier tier'' :=
  ⟨second.1.trans first.1, second.2.trans first.2⟩

end FileSystemTier

open FileSystemTier

/-- The second key is given twice, the file of the third cannot be unlinked, and the fourth is nowhere. -/
def deletedKeys : List OffloadKey := [[1], [2], [3], [4], [2]]

end KVTiering.Soundness
