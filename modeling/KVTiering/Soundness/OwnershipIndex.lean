import KVTiering.Soundness.IdleBlocks
import KVTiering.Soundness.Transfers

/-! # The ownership index

Whatever calls reach the tracker, its two views of who owns what are one relation, no session holds on to a
block that has been dropped, and the idle mark of a block is never beside an active owner. The mark is set
where the last active owner leaves, and taken away where one comes: by an access, or when a session that owns
the block already becomes active.
-/

namespace KVTiering.Soundness.BlockResidencyTracker

open Model Model.BlockResidencyTracker

variable {T : Type}

/-- No block with an idle mark has an active owner. -/
def MarkedIdle (t : BlockResidencyTracker T) : Prop :=
  ∀ key, (idleOf t key).isSome → Disjoint (owners t key) t.activeSessions

/-! ## Marks and accesses -/

/-- An access of an active session takes the marks of its blocks away. -/
theorem idleOf_recordAccess_active (t : BlockResidencyTracker T) {sessionId : String}
    (active : sessionId ∈ t.activeSessions) (keys : List OffloadKey) (now : T) {key : OffloadKey}
    (member : key ∈ keys) : idleOf (t.recordAccess sessionId keys now) key = none := by
  change idleOf (keys.foldl (recordOne sessionId now) t) key = none
  induction keys generalizing t with
  | nil => cases member
  | cons head rest ih =>
    by_cases later : key ∈ rest
    · exact ih (recordOne sessionId now t head) active later
    · have same : key = head := (List.mem_cons.mp member).resolve_right later
      have kept := idleOf_recordAccess (recordOne sessionId now t head) sessionId rest now key (.inr later)
      refine kept.trans ?_
      simp [idleOf, fieldOf, recordOne, get?_touch, same, active]

theorem markedIdle_recordAccess {t : BlockResidencyTracker T} (named : Named t) (marked : MarkedIdle t)
    (sessionId : String) (keys : List OffloadKey) (now : T) : MarkedIdle (t.recordAccess sessionId keys now) := by
  intro key idle
  have sameActive : (t.recordAccess sessionId keys now).activeSessions = t.activeSessions :=
    (recordLoop_spec sessionId now keys named).2.1
  rw [sameActive, owners_recordAccess named]
  split
  · next member =>
    by_cases active : sessionId ∈ t.activeSessions
    · rw [idleOf_recordAccess_active t active keys now member] at idle
      cases idle
    · rw [idleOf_recordAccess t sessionId keys now key (.inl active)] at idle
      exact Finset.disjoint_insert_left.mpr ⟨active, marked key idle⟩
  · next apart =>
    rw [idleOf_recordAccess t sessionId keys now key (.inr apart)] at idle
    exact marked key idle

/-! ## Marks and sessions -/

theorem markedIdle_onSessionActive {t : BlockResidencyTracker T} (indexed : Indexed t) (marked : MarkedIdle t)
    (sessionId : String) (now : T) : MarkedIdle (t.onSessionActive sessionId now) := by
  intro key idle
  have more : (t.onSessionActive sessionId now).activeSessions = insert sessionId t.activeSessions := rfl
  rw [more, owners_onSessionActive]
  by_cases member : key ∈ t.getSessionKeys sessionId
  · -- a block of the session has lost its mark
    cases found : t.blocks.get? key with
    | none => simp [idleOf, fieldOf, onSessionActive, found] at idle
    | some state => simp [idleOf, fieldOf, onSessionActive, found, member] at idle
  · have apart : sessionId ∉ owners t key := by rwa [indexed.owned]
    have sameIdle : idleOf (t.onSessionActive sessionId now) key = idleOf t key :=
      fieldOf_mapValues key fun _ => by rw [if_neg member]
    rw [sameIdle] at idle
    exact Finset.disjoint_insert_right.mpr ⟨apart, marked key idle⟩

theorem markedIdle_onSessionIdle {t : BlockResidencyTracker T} (marked : MarkedIdle t) (sessionId : String)
    (now : T) : MarkedIdle (t.onSessionIdle sessionId now) := by
  intro key idle
  have fewer : (t.onSessionIdle sessionId now).activeSessions = t.activeSessions.erase sessionId := rfl
  have rewritten := get?_onSessionIdle t sessionId now key
  rw [fewer, owners_onSessionIdle]
  cases found : t.blocks.get? key with
  | none => simp [idleOf, fieldOf, rewritten, found] at idle
  | some state =>
    rw [found, Option.map_some] at rewritten
    rw [idleOf_of_get? rewritten] at idle
    split at idle
    · next settled =>
      rw [owners_of_get? found]
      exact settled.2
    · rw [← idleOf_of_get? found] at idle
      exact Finset.disjoint_of_subset_right (Finset.erase_subset sessionId _) (marked key idle)

/-- What every call keeps. -/
structure Tracked (t : BlockResidencyTracker T) : Prop where
  indexed : Indexed t
  positive : ∀ key, Positive (transfersOf t key)
  marked : MarkedIdle t

theorem tracked_init (maxEntries : ℕ) (maxEntries_pos : 0 < maxEntries) :
    Tracked (init maxEntries maxEntries_pos : BlockResidencyTracker T) where
  indexed := indexed_init maxEntries maxEntries_pos
  positive _ _ _ found := by cases found
  marked _ idle := by cases idle

variable [LinearOrder T] [Zero T]

theorem markedIdle_releaseSession {t : BlockResidencyTracker T} (marked : MarkedIdle t) (sessionId : String)
    (now : T) : MarkedIdle (t.releaseSession sessionId now).2 := by
  intro key idle
  have fewer : (t.releaseSession sessionId now).2.activeSessions = t.activeSessions.erase sessionId := rfl
  have rewritten := get?_releaseSession t sessionId now key
  cases found : t.blocks.get? key with
  | none => simp [idleOf, fieldOf, rewritten, found] at idle
  | some state =>
    have before := marked key
    rw [idleOf_of_get? found, owners_of_get? found] at before
    rw [found, Option.map_some] at rewritten
    rw [idleOf_of_get? rewritten] at idle
    rw [owners_of_get? rewritten, fewer]
    split at idle
    · next member =>
      rw [if_pos member]
      change Disjoint (state.sessionIds.erase sessionId) (t.activeSessions.erase sessionId)
      by_contra shared
      -- another owner is active, so there was no mark before
      rw [released, if_neg shared] at idle
      have smaller := Finset.disjoint_of_subset_left (Finset.erase_subset sessionId _) (before idle)
      exact shared (Finset.disjoint_of_subset_right (Finset.erase_subset sessionId _) smaller)
    · next apart =>
      rw [if_neg apart]
      exact Finset.disjoint_of_subset_right (Finset.erase_subset sessionId _) (before idle)

theorem markedIdle_call {t : BlockResidencyTracker T} (named : Named t) (marked : MarkedIdle t)
    (call : ResidencyCall T) : MarkedIdle (t.call call) := by
  intro key idle
  have same := sameIndex_call named call
  rw [same.owners, same.activeSessions]
  rcases eq_or_ne (owners t key) ∅ with unowned | owned
  · rw [unowned]
    exact Finset.disjoint_empty_left _
  · rw [idleOf_call named call owned] at idle
    exact marked key idle

/-! ## Runs -/

theorem tracked_step {t : BlockResidencyTracker T} (tracked : Tracked t) (call : TrackerCall T) :
    Tracked (t.step call) := by
  obtain ⟨indexed, positive, marked⟩ := tracked
  refine ⟨indexed_step indexed call, fun key => ?_, ?_⟩
  · exact (countOf_step indexed.named call key ("", "")).2 (positive key)
  · cases call with
    | onSessionActive sessionId now => exact markedIdle_onSessionActive indexed marked sessionId now
    | onSessionIdle sessionId now => exact markedIdle_onSessionIdle marked sessionId now
    | recordAccess sessionId keys now => exact markedIdle_recordAccess indexed.named marked sessionId keys now
    | releaseSession sessionId now => exact markedIdle_releaseSession marked sessionId now
    | direct call => exact markedIdle_call indexed.named marked call

theorem tracked_run (maxEntries : ℕ) (maxEntries_pos : 0 < maxEntries) (calls : List (TrackerCall T)) :
    Tracked (run maxEntries maxEntries_pos calls) :=
  List.foldlRecOn calls step (motive := Tracked) (tracked_init maxEntries maxEntries_pos)
    fun _ tracked call _ => tracked_step tracked call

/-- After any calls, a session is an owner in a block exactly if the block's key is among those of the session,
where every key is tracked; no count of transfers is zero; and no block with an idle mark has an active owner. -/
theorem ownership_index (maxEntries : ℕ) (maxEntries_pos : 0 < maxEntries) (calls : List (TrackerCall T)) :
    let t := run maxEntries maxEntries_pos calls
    (∀ key block, t.blocks.get? key = some block → block.key = key ∧
        ∀ sessionId, sessionId ∈ block.sessionIds ↔
          ∃ keys, t.sessionKeys.get? sessionId = some keys ∧ block.key ∈ keys) ∧
      (∀ sessionId keys, t.sessionKeys.get? sessionId = some keys → ∀ key ∈ keys, (t.blocks.get? key).isSome) ∧
      (∀ key block, t.blocks.get? key = some block → ∀ transfer count,
        block.inflightTransfers.get? transfer = some count → 1 ≤ count) ∧
      ∀ key block, t.blocks.get? key = some block → block.idleSince.isSome →
        ∀ sessionId ∈ block.sessionIds, sessionId ∉ t.activeSessions := by
  intro t
  obtain ⟨⟨named, owned⟩, positive, marked⟩ := tracked_run maxEntries maxEntries_pos calls
  have listed : ∀ sessionId key, key ∈ t.getSessionKeys sessionId ↔
      ∃ keys, t.sessionKeys.get? sessionId = some keys ∧ key ∈ keys := by
    intro sessionId key
    unfold getSessionKeys
    cases t.sessionKeys.get? sessionId <;> simp
  refine ⟨fun key block found => ?_, fun sessionId keys stored key member => ?_,
    fun key block found transfer count counted => ?_, fun key block found idle sessionId owner active => ?_⟩
  · have same : block.key = key := named key block found
    refine ⟨same, fun sessionId => ?_⟩
    rw [← owners_of_get? found, owned, same]
    exact listed sessionId key
  · have owner := (owned sessionId key).mpr ((listed sessionId key).mpr ⟨keys, stored, member⟩)
    cases found : t.blocks.get? key with
    | none => simp [owners, t, found] at owner
    | some block => rfl
  · have counter := positive key
    rw [transfersOf_of_get? found] at counter
    exact counter transfer count counted
  · have apart := marked key
    rw [idleOf_of_get? found, owners_of_get? found] at apart
    exact Finset.disjoint_left.mp (apart idle) owner active

/-- Two sessions share a block; one becomes idle and the other one is released. -/
def sharedAccesses : List (TrackerCall ℕ) :=
  [.onSessionActive "s1" 1, .recordAccess "s1" [[1], [2]] 2, .recordAccess "s2" [[1]] 3, .onSessionIdle "s1" 4,
    .direct (.startTransfer [[1], [3]] "cpu" "fs" 5), .direct (.finishTransfer [[3]] "cpu" "fs"),
    .releaseSession "s2" 6, .direct .prune]

theorem ownership_index_sharedAccesses : ∃ block,
    (run 1 (by decide) sharedAccesses).blocks.get? [1] = some block ∧ block.idleSince = some 4 ∧
      (∃ keys, (run 1 (by decide) sharedAccesses).sessionKeys.get? "s1" = some keys ∧ [1] ∈ keys) ∧
      "s1" ∉ (run 1 (by decide) sharedAccesses).activeSessions := by
  have executed : ((run 1 (by decide) sharedAccesses).blocks.get? [1]).map (fun block =>
      (block.sessionIds, block.idleSince)) = some ({"s1"}, some 4) := by decide +kernel
  obtain ⟨block, found, facts⟩ := Option.map_eq_some_iff.mp executed
  obtain ⟨owned, idle⟩ := Prod.mk.inj facts
  have owner : "s1" ∈ block.sessionIds := by simp [owned]
  obtain ⟨index, -, -, apart⟩ := ownership_index 1 (by decide) sharedAccesses
  obtain ⟨named, owners⟩ := index [1] block found
  refine ⟨block, found, idle, ?_, apart [1] block found (by simp [idle]) "s1" owner⟩
  rw [← named]
  exact (owners "s1").mp owner

end KVTiering.Soundness.BlockResidencyTracker
