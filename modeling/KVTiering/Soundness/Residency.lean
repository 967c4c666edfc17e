import KVTiering.Model.Residency

/-! # Ownership in the residency tracker

Which sessions own a block is stored twice, in the block and in the key set of the session. Every method of
the tracker keeps the two in step, and never drops a block that a session owns.
-/

namespace KVTiering.Soundness

open Model

namespace BlockResidencyTracker

open Model.BlockResidencyTracker

variable {T : Type}

/-- The sessions that a block lists as its owners; none, for a block that is not tracked. -/
def owners (t : BlockResidencyTracker T) (key : OffloadKey) : Finset String :=
  ((t.blocks.get? key).map fun state => state.sessionIds).getD ∅

/-- Every block is stored under its own key. -/
def Named (t : BlockResidencyTracker T) : Prop :=
  ∀ key state, t.blocks.get? key = some state → state.key = key

/-- The two sides of the ownership index agree. -/
structure Indexed (t : BlockResidencyTracker T) : Prop where
  named : Named t
  owned : ∀ sessionId key, sessionId ∈ owners t key ↔ key ∈ t.getSessionKeys sessionId

/-- One tracker has the sessions and the owners of another. -/
structure SameIndex (t t' : BlockResidencyTracker T) : Prop where
  named : Named t'
  sessionKeys : t'.sessionKeys = t.sessionKeys
  activeSessions : t'.activeSessions = t.activeSessions
  owners : ∀ key, owners t' key = owners t key

theorem owners_of_get? {t : BlockResidencyTracker T} {key : OffloadKey} {state : BlockResidencyState T}
    (found : t.blocks.get? key = some state) : owners t key = state.sessionIds := by simp [owners, found]

namespace SameIndex

theorem refl {t : BlockResidencyTracker T} (named : Named t) : SameIndex t t := ⟨named, rfl, rfl, fun _ => rfl⟩

theorem trans {t t' t'' : BlockResidencyTracker T} (first : SameIndex t t') (second : SameIndex t' t'') :
    SameIndex t t'' :=
  ⟨second.named, second.sessionKeys.trans first.sessionKeys,
    second.activeSessions.trans first.activeSessions, fun key => (second.owners key).trans (first.owners key)⟩

/-- A loop each of whose iterations keeps the index keeps the index. -/
theorem foldl {α : Type} {body : BlockResidencyTracker T → α → BlockResidencyTracker T}
    (kept : ∀ t value, Named t → SameIndex t (body t value)) (values : List α) {t : BlockResidencyTracker T}
    (named : Named t) : SameIndex t (values.foldl body t) := by
  induction values generalizing t with
  | nil => exact .refl named
  | cons value rest ih =>
    have first := kept t value named
    exact first.trans (ih first.named)

theorem getSessionKeys {t t' : BlockResidencyTracker T} (same : SameIndex t t') (sessionId : String) :
    t'.getSessionKeys sessionId = t.getSessionKeys sessionId := by
  simp only [BlockResidencyTracker.getSessionKeys, same.sessionKeys]

theorem indexed {t t' : BlockResidencyTracker T} (same : SameIndex t t') (indexed : Indexed t) : Indexed t' :=
  ⟨same.named, fun sessionId key => by rw [same.owners, same.getSessionKeys, indexed.owned]⟩

end SameIndex

theorem indexed_init (maxEntries : ℕ) (maxEntries_pos : 0 < maxEntries) :
    Indexed (init maxEntries maxEntries_pos : BlockResidencyTracker T) :=
  { named := fun _ _ found => by cases found
    owned := fun _ _ => by simp [owners, init, getSessionKeys] }

/-- What a method does to a block that it gets or creates. -/
theorem get?_touch (t : BlockResidencyTracker T) (key : OffloadKey) (now : T)
    (change : BlockResidencyState T → BlockResidencyState T) (other : OffloadKey) :
    (t.touch key now change).blocks.get? other =
      if other = key then some (change ((t.blocks.get? key).getD (.init key now now)))
      else t.blocks.get? other := by simp [touch]

/-- A field of a block; its default, for a block that is not tracked. -/
def fieldOf {β : Type} (view : BlockResidencyState T → β) (default : β) (t : BlockResidencyTracker T)
    (key : OffloadKey) : β := ((t.blocks.get? key).map view).getD default

section FieldOf

variable {β : Type} {view : BlockResidencyState T → β} {default : β} {t : BlockResidencyTracker T}

theorem fieldOf_of_get? {key : OffloadKey} {state : BlockResidencyState T}
    (found : t.blocks.get? key = some state) : fieldOf view default t key = view state := by
  simp [fieldOf, found]

/-- Getting or creating a block, without changing the field. -/
theorem fieldOf_touch (initial : ∀ key now, view (.init key now now) = default) (key : OffloadKey) (now : T)
    {change : BlockResidencyState T → BlockResidencyState T} (kept : ∀ state, view (change state) = view state)
    (other : OffloadKey) : fieldOf view default (t.touch key now change) other = fieldOf view default t other := by
  rcases eq_or_ne other key with rfl | differ
  · cases found : t.blocks.get? other <;> simp [fieldOf, get?_touch, found, kept, initial]
  · simp [fieldOf, get?_touch, differ]

/-- Rewriting every block in place, without changing the field of one of them. -/
theorem fieldOf_mapValues {change : OffloadKey → BlockResidencyState T → BlockResidencyState T}
    (key : OffloadKey) (kept : ∀ state, view (change key state) = view state) :
    fieldOf view default { t with blocks := t.blocks.mapValues change } key = fieldOf view default t key := by
  cases found : t.blocks.get? key <;> simp [fieldOf, found, kept]

/-- A loop none of whose iterations changes the field. -/
theorem fieldOf_foldl {α : Type} {body : BlockResidencyTracker T → α → BlockResidencyTracker T}
    (kept : ∀ t value key, fieldOf view default (body t value) key = fieldOf view default t key)
    (values : List α) (key : OffloadKey) :
    fieldOf view default (values.foldl body t) key = fieldOf view default t key := by
  induction values generalizing t with
  | nil => rfl
  | cons value rest ih => rw [List.foldl_cons, ih, kept]

/-- The end of a transfer changes one field only. -/
theorem fieldOf_finishTransfer
    (kept : ∀ state inflightTransfers, view { state with inflightTransfers := inflightTransfers } = view state)
    (keys : List OffloadKey) (source target : String) (key : OffloadKey) :
    fieldOf view default (t.finishTransfer keys source target) key = fieldOf view default t key := by
  refine fieldOf_foldl (fun t value other => ?_) keys key
  cases found : t.blocks.get? value with
  | none => rfl
  | some state => rcases eq_or_ne other value with rfl | differ <;> simp_all [fieldOf]

end FieldOf

theorem named_touch {t : BlockResidencyTracker T} {key : OffloadKey} {now : T}
    {change : BlockResidencyState T → BlockResidencyState T}
    (sameKey : ∀ state, (change state).key = state.key) (named : Named t) : Named (t.touch key now change) := by
  intro other state found
  rw [get?_touch] at found
  split at found
  · next equal =>
    obtain rfl := Option.some.inj found
    rw [sameKey, equal]
    cases known : t.blocks.get? key with
    | none => rfl
    | some state => exact named key state known
  · exact named other state found

theorem sameIndex_touch {t : BlockResidencyTracker T} {key : OffloadKey} {now : T}
    {change : BlockResidencyState T → BlockResidencyState T}
    (sameKey : ∀ state, (change state).key = state.key)
    (sameOwners : ∀ state, (change state).sessionIds = state.sessionIds) (named : Named t) :
    SameIndex t (t.touch key now change) := by
  refine ⟨named_touch sameKey named, rfl, rfl, fun other => ?_⟩
  by_cases equal : other = key
  · cases found : t.blocks.get? key <;>
      simp [owners, get?_touch, equal, found, sameOwners, BlockResidencyState.init]
  · simp [owners, get?_touch, equal]

/-- Rewriting every block in place, without changing keys and owners. -/
theorem sameIndex_mapValues {t : BlockResidencyTracker T}
    (change : OffloadKey → BlockResidencyState T → BlockResidencyState T)
    (sameKey : ∀ key state, (change key state).key = state.key)
    (sameOwners : ∀ key state, (change key state).sessionIds = state.sessionIds) (named : Named t) :
    SameIndex t { t with blocks := t.blocks.mapValues change } := by
  refine ⟨fun key state found => ?_, rfl, rfl, fun key => ?_⟩
  · rw [Dict.get?_mapValues] at found
    obtain ⟨old, known, rfl⟩ := Option.map_eq_some_iff.mp found
    rw [sameKey, named key old known]
  · cases found : t.blocks.get? key <;> simp [owners, found, sameOwners]

theorem sameIndex_finishTransfer {t : BlockResidencyTracker T} (keys : List OffloadKey) (source target : String)
    (named : Named t) : SameIndex t (t.finishTransfer keys source target) := by
  refine SameIndex.foldl (fun t key named => ?_) keys named
  cases found : t.blocks.get? key with
  | none => exact .refl named
  | some state =>
    refine ⟨fun other state' found' => ?_, rfl, rfl, fun other => ?_⟩
    · simp only [Dict.get?_set] at found'
      split at found'
      · next equal =>
        obtain rfl := Option.some.inj found'
        exact (named key state found).trans equal.symm
      · exact named other state' found'
    · by_cases equal : other = key
      · simp [owners, equal, found]
      · simp [owners, equal]

theorem owners_onSessionActive (t : BlockResidencyTracker T) (sessionId : String) (now : T) (key : OffloadKey) :
    owners (t.onSessionActive sessionId now) key = owners t key := by
  simp only [owners, onSessionActive, Dict.get?_mapValues, Option.map_map]
  congr 2
  funext state
  rw [Function.comp_apply]
  split <;> rfl

theorem onSessionActive_spec {t : BlockResidencyTracker T} (indexed : Indexed t) (sessionId : String) (now : T) :
    Indexed (t.onSessionActive sessionId now) ∧
      (t.onSessionActive sessionId now).sessionKeys = t.sessionKeys ∧
      (t.onSessionActive sessionId now).activeSessions = insert sessionId t.activeSessions := by
  have same := sameIndex_mapValues (fun key (state : BlockResidencyState T) =>
    if key ∈ t.getSessionKeys sessionId then { state with idleSince := none, lastAccessAt := now } else state)
    (fun _ _ => by split <;> rfl) (fun _ _ => by split <;> rfl) indexed.named
  exact ⟨⟨same.named, (same.indexed indexed).owned⟩, rfl, rfl⟩

theorem hasActiveSession_eq_false_iff {state : BlockResidencyState T} {activeSessions : Finset String} :
    state.hasActiveSession activeSessions = false ↔ Disjoint state.sessionIds activeSessions := by
  rw [BlockResidencyState.hasActiveSession, decide_eq_false_iff_not, not_not, Finset.disjoint_iff_inter_eq_empty]

/-- A block of a session that becomes idle is marked if it has no active owner left. -/
theorem get?_onSessionIdle (t : BlockResidencyTracker T) (sessionId : String) (now : T) (key : OffloadKey) :
    (t.onSessionIdle sessionId now).blocks.get? key = (t.blocks.get? key).map fun state =>
      if key ∈ t.getSessionKeys sessionId ∧ Disjoint state.sessionIds (t.activeSessions.erase sessionId) then
        { state with idleSince := some now }
      else state := by
  simp only [onSessionIdle, Dict.get?_mapValues, Bool.not_eq_true, hasActiveSession_eq_false_iff]

theorem owners_onSessionIdle (t : BlockResidencyTracker T) (sessionId : String) (now : T) (key : OffloadKey) :
    owners (t.onSessionIdle sessionId now) key = owners t key := by
  rw [owners, get?_onSessionIdle, Option.map_map, owners]
  congr 2
  funext state
  rw [Function.comp_apply]
  split <;> rfl

theorem onSessionIdle_spec {t : BlockResidencyTracker T} (indexed : Indexed t) (sessionId : String) (now : T) :
    Indexed (t.onSessionIdle sessionId now) ∧
      (t.onSessionIdle sessionId now).sessionKeys = t.sessionKeys ∧
      (t.onSessionIdle sessionId now).activeSessions = t.activeSessions.erase sessionId := by
  have same := sameIndex_mapValues (fun key (state : BlockResidencyState T) =>
    if key ∈ t.getSessionKeys sessionId ∧ ¬ state.hasActiveSession (t.activeSessions.erase sessionId) then
      { state with idleSince := some now }
    else state) (fun _ _ => by split <;> rfl) (fun _ _ => by split <;> rfl) indexed.named
  exact ⟨⟨same.named, (same.indexed indexed).owned⟩, rfl, rfl⟩

theorem owners_recordOne (t : BlockResidencyTracker T) (sessionId : String) (now : T) (key other : OffloadKey) :
    owners (recordOne sessionId now t key) other =
      if other = key then insert sessionId (owners t other) else owners t other := by
  by_cases equal : other = key
  · cases found : t.blocks.get? key <;>
      simp [owners, recordOne, get?_touch, equal, found, BlockResidencyState.init]
  · simp [owners, recordOne, get?_touch, equal]

/-- The loop of `record_access` adds the session to the owners of the given keys. -/
theorem recordLoop_spec (sessionId : String) (now : T) (keys : List OffloadKey) {t : BlockResidencyTracker T}
    (named : Named t) :
    Named (keys.foldl (recordOne sessionId now) t) ∧
      (keys.foldl (recordOne sessionId now) t).activeSessions = t.activeSessions ∧
      ∀ key, owners (keys.foldl (recordOne sessionId now) t) key =
        if key ∈ keys then insert sessionId (owners t key) else owners t key := by
  induction keys generalizing t with
  | nil => exact ⟨named, rfl, fun key => by simp⟩
  | cons head rest ih =>
    have first : Named (recordOne sessionId now t head) := named_touch (fun _ => rfl) named
    obtain ⟨named', active', owners'⟩ := ih first
    refine ⟨named', active', fun key => ?_⟩
    rw [List.foldl_cons, owners' key, owners_recordOne]
    by_cases isHead : key = head <;> by_cases later : key ∈ rest <;> simp [isHead, later]

theorem recordAccess_spec {t : BlockResidencyTracker T} (indexed : Indexed t) (sessionId : String)
    (keys : List OffloadKey) (now : T) :
    Indexed (t.recordAccess sessionId keys now) ∧
      (t.recordAccess sessionId keys now).sessionKeys =
        t.sessionKeys.set sessionId (t.getSessionKeys sessionId ∪ keys.toFinset) ∧
      (t.recordAccess sessionId keys now).activeSessions = t.activeSessions := by
  obtain ⟨named, active, owned⟩ := recordLoop_spec sessionId now keys indexed.named
  refine ⟨⟨named, fun other key => ?_⟩, rfl, active⟩
  have members : other ∈ owners (t.recordAccess sessionId keys now) key ↔
      other ∈ owners t key ∨ (other = sessionId ∧ key ∈ keys) := by
    rw [show owners (t.recordAccess sessionId keys now) key = _ from owned key]
    split <;> simp_all [or_comm]
  rw [members, indexed.owned]
  by_cases same : other = sessionId
  · simp [getSessionKeys, recordAccess, same]
  · simp [getSessionKeys, recordAccess, same]

variable [LinearOrder T]

/-- `prune` only drops blocks that no session owns. -/
theorem sameIndex_prune {t : BlockResidencyTracker T} (named : Named t) : SameIndex t t.prune.2 := by
  simp only [prune]
  split
  · exact .refl named
  · refine ⟨fun key state found => ?_, rfl, rfl, fun key => ?_⟩
    · simp only [Dict.get?_eraseAll] at found
      split at found
      · cases found
      · exact named key state found
    · simp only [owners, Dict.get?_eraseAll]
      split
      · next pruned =>
        obtain ⟨state, member, rfl⟩ := List.mem_map.mp pruned
        have candidate := List.mem_of_mem_take member
        simp only [mem_sortedBy, List.mem_filter, Bool.and_eq_true, decide_eq_true_eq] at candidate
        obtain ⟨inside, ⟨unowned, _⟩, _⟩ := candidate
        obtain ⟨key, found⟩ := Dict.mem_values_iff.mp inside
        rw [named key state found, found]
        simp [unowned]
      · rfl

variable [Zero T]

/-- No call of another component changes who owns what. -/
theorem sameIndex_call {t : BlockResidencyTracker T} (named : Named t) (call : ResidencyCall T) :
    SameIndex t (t.call call) := by
  cases call with
  | markCpuResident keys resident now =>
    refine SameIndex.foldl (fun t key named => ?_) keys named
    exact sameIndex_touch (fun _ => rfl) (fun _ => rfl) named
  | markSecondaryResident keys tier resident now =>
    refine SameIndex.foldl (fun t key named => ?_) keys named
    exact sameIndex_touch (fun _ => rfl) (fun _ => rfl) named
  | startTransfer keys source target now =>
    refine SameIndex.foldl (fun t key named => ?_) keys named
    exact sameIndex_touch (fun _ => rfl) (fun _ => rfl) named
  | finishTransfer keys source target => exact sameIndex_finishTransfer keys source target named
  | clearCpuResidency => exact sameIndex_mapValues _ (fun _ _ => rfl) (fun _ _ => rfl) named
  | prune => exact sameIndex_prune named

/-- What a release does to a block of the session. -/
def released (sessionId : String) (activeSessions : Finset String) (now : T) (state : BlockResidencyState T) :
    BlockResidencyState T :=
  { state with
    sessionIds := state.sessionIds.erase sessionId
    idleSince :=
      if Disjoint (state.sessionIds.erase sessionId) activeSessions then some (orElseTime state.idleSince now)
      else state.idleSince }

theorem get?_releaseSession (t : BlockResidencyTracker T) (sessionId : String) (now : T) (key : OffloadKey) :
    (t.releaseSession sessionId now).2.blocks.get? key = (t.blocks.get? key).map fun state =>
      if key ∈ t.getSessionKeys sessionId then released sessionId (t.activeSessions.erase sessionId) now state
      else state := by
  simp only [releaseSession, Dict.get?_mapValues, Bool.not_eq_true, hasActiveSession_eq_false_iff]
  congr 1
  funext state
  split
  · unfold released
    split
    · next unowned => simp [unowned]
    · split
      · rfl
      · rfl
  · rfl

/-- What `release_session` returns, and what it leaves. -/
theorem releaseSession_spec {t : BlockResidencyTracker T} (indexed : Indexed t) (sessionId : String) (now : T) :
    Indexed (t.releaseSession sessionId now).2 ∧
      (t.releaseSession sessionId now).2.sessionKeys = t.sessionKeys.erase sessionId ∧
      (t.releaseSession sessionId now).2.activeSessions = t.activeSessions.erase sessionId ∧
      ∀ key, key ∈ (t.releaseSession sessionId now).1 ↔
        key ∈ t.getSessionKeys sessionId ∧ ∀ other, key ∈ t.getSessionKeys other → other = sessionId := by
  have owned : ∀ key, owners (t.releaseSession sessionId now).2 key = (owners t key).erase sessionId := by
    intro key
    rw [owners, get?_releaseSession, Option.map_map]
    by_cases member : key ∈ t.getSessionKeys sessionId
    · cases found : t.blocks.get? key <;> simp [owners, found, member, released]
    · have notOwner : sessionId ∉ owners t key := by rwa [indexed.owned]
      rw [Finset.erase_eq_of_notMem notOwner]
      cases found : t.blocks.get? key <;> simp [owners, found, member]
  refine ⟨⟨fun key state found => ?_, fun other key => ?_⟩, rfl, rfl, fun key => ?_⟩
  · rw [get?_releaseSession] at found
    obtain ⟨old, known, rfl⟩ := Option.map_eq_some_iff.mp found
    have same := indexed.named key old known
    split
    · exact same
    · exact same
  · rw [owned, Finset.mem_erase, indexed.owned]
    by_cases same : other = sessionId <;> simp [getSessionKeys, releaseSession, same]
  · simp only [releaseSession, Finset.mem_filter, and_congr_right_iff]
    intro member
    have isOwner := (indexed.owned sessionId key).mpr member
    simp only [← indexed.owned]
    cases found : t.blocks.get? key with
    | none => simp [owners, found] at isOwner
    | some state =>
      rw [owners_of_get? found]
      simp only [Option.map_some, Option.some.injEq, Finset.eq_empty_iff_forall_notMem, Finset.mem_erase]
      exact forall_congr' fun other => by tauto

/-- What every method of the tracker keeps, other than recording an access. -/
structure Invariant (holds : BlockResidencyTracker T → Prop) : Prop where
  active : ∀ t sessionId now, holds t → holds (t.onSessionActive sessionId now)
  idle : ∀ t sessionId now, holds t → holds (t.onSessionIdle sessionId now)
  release : ∀ t sessionId now, holds t → holds (t.releaseSession sessionId now).2
  call : ∀ t call, holds t → holds (t.call call)

theorem invariant_indexed : Invariant (Indexed : BlockResidencyTracker T → Prop) where
  active _ _ _ indexed := (onSessionActive_spec indexed _ _).1
  idle _ _ _ indexed := (onSessionIdle_spec indexed _ _).1
  release _ _ _ indexed := (releaseSession_spec indexed _ _).1
  call _ call indexed := (sameIndex_call indexed.named call).indexed indexed

/-- A candidate for demotion has no active owner. -/
theorem inactive_of_candidate {t : BlockResidencyTracker T} (indexed : Indexed t) {limit : ℤ}
    {idleBefore : Option T} {key : OffloadKey} (member : key ∈ t.getIdleCpuCandidates limit idleBefore) :
    ∀ sessionId ∈ t.activeSessions, key ∉ t.getSessionKeys sessionId := by
  intro sessionId active recorded
  obtain ⟨state, chosen, rfl⟩ := List.mem_map.mp member
  have candidate := mem_of_mem_sliceTo chosen
  simp only [mem_sortedBy, List.mem_filter, Bool.and_eq_true, Bool.not_eq_true'] at candidate
  obtain ⟨inside, ⟨⟨⟨⟨⟨⟨_, _⟩, _⟩, inactive⟩, _⟩, _⟩, _⟩⟩ := candidate
  obtain ⟨key, found⟩ := Dict.mem_values_iff.mp inside
  rw [indexed.named key state found] at recorded
  have owner : sessionId ∈ state.sessionIds := by
    rw [← owners_of_get? found, indexed.owned]
    exact recorded
  have shared := Finset.mem_inter.mpr ⟨owner, active⟩
  simp only [BlockResidencyState.hasActiveSession, decide_eq_false_iff_not, not_not] at inactive
  simp [inactive] at shared

end BlockResidencyTracker

end KVTiering.Soundness
