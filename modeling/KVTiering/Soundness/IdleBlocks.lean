import KVTiering.Soundness.LifecycleCoherence
import KVTiering.Soundness.SessionSteps

/-! # Since when a block is idle

A block that policy may demote must say since when none of its sessions has been active. Becoming idle and
releasing a session say so; recording an access does not, and a block that an idle session accesses for the
first time is left without the mark. This is the only way for a block to get stuck.
-/

namespace KVTiering.Soundness

open Model

namespace BlockResidencyTracker

open Model.BlockResidencyTracker

variable {T : Type}

/-- The idle mark of a block. -/
def idleOf (t : BlockResidencyTracker T) (key : OffloadKey) : Option T :=
  fieldOf (fun state => state.idleSince) none t key

theorem idleOf_of_get? {t : BlockResidencyTracker T} {key : OffloadKey} {state : BlockResidencyState T}
    (found : t.blocks.get? key = some state) : idleOf t key = state.idleSince := fieldOf_of_get? found

/-- Every block with owners none of which is active has its idle mark. -/
def Rested (t : BlockResidencyTracker T) : Prop :=
  ∀ key, owners t key ≠ ∅ → Disjoint (owners t key) t.activeSessions → (idleOf t key).isSome

/-- An access leaves the marks of other blocks, and that of an idle session leaves all marks. -/
theorem idleOf_recordAccess (t : BlockResidencyTracker T) (sessionId : String) (keys : List OffloadKey) (now : T)
    (key : OffloadKey) (apart : sessionId ∉ t.activeSessions ∨ key ∉ keys) :
    idleOf (t.recordAccess sessionId keys now) key = idleOf t key := by
  change idleOf (keys.foldl (recordOne sessionId now) t) key = idleOf t key
  induction keys generalizing t with
  | nil => rfl
  | cons head rest ih =>
    have later : sessionId ∉ (recordOne sessionId now t head).activeSessions ∨ key ∉ rest :=
      apart.imp id fun outside => List.not_mem_of_not_mem_cons outside
    rw [List.foldl_cons, ih _ later]
    rcases apart with idle | outside
    · refine fieldOf_touch (fun _ _ => rfl) head now ?_ key
      exact fun _ => if_neg idle
    · have differ : key ≠ head := List.ne_of_not_mem_cons outside
      simp [idleOf, fieldOf, recordOne, get?_touch, differ]

theorem owners_recordAccess {t : BlockResidencyTracker T} (named : Named t) (sessionId : String)
    (keys : List OffloadKey) (now : T) (key : OffloadKey) :
    owners (t.recordAccess sessionId keys now) key =
      if key ∈ keys then insert sessionId (owners t key) else owners t key :=
  (recordLoop_spec sessionId now keys named).2.2 key

/-- Recording an access of an active session marks nothing and needs no mark; one of an idle session needs
every block that it names to have its mark, or another owner that is active. -/
theorem rested_recordAccess_iff {t : BlockResidencyTracker T} (indexed : Indexed t) (rested : Rested t)
    (sessionId : String) (keys : List OffloadKey) (now : T) :
    Rested (t.recordAccess sessionId keys now) ↔ (sessionId ∉ t.activeSessions →
      ∀ key ∈ keys, (idleOf t key).isSome ∨ ¬ Disjoint (owners t key) t.activeSessions) := by
  have sameActive : (t.recordAccess sessionId keys now).activeSessions = t.activeSessions :=
    (recordAccess_spec indexed sessionId keys now).2.2
  have sameOwners := owners_recordAccess indexed.named sessionId keys now
  constructor
  · intro after inactive key member
    by_contra neither
    simp only [not_or, not_not] at neither
    have marked := after key (by simp [sameOwners, member]) (by
      rw [sameOwners, sameActive, if_pos member, Finset.disjoint_insert_left]
      exact ⟨inactive, neither.2⟩)
    rw [idleOf_recordAccess t sessionId keys now key (.inl inactive)] at marked
    exact neither.1 marked
  · intro covered key owned idle
    rw [sameOwners, sameActive] at idle
    rw [sameOwners] at owned
    split at idle
    · next member =>
      obtain ⟨inactive, others⟩ := Finset.disjoint_insert_left.mp idle
      rw [idleOf_recordAccess t sessionId keys now key (.inl inactive)]
      exact (covered inactive key member).resolve_right (not_not.mpr others)
    · next apart =>
      rw [if_neg apart] at owned
      rw [idleOf_recordAccess t sessionId keys now key (.inr apart)]
      exact rested key owned idle

theorem rested_onSessionActive {t : BlockResidencyTracker T} (indexed : Indexed t) (rested : Rested t)
    (sessionId : String) (now : T) : Rested (t.onSessionActive sessionId now) := by
  intro key owned idle
  rw [owners_onSessionActive] at owned idle
  have apart : sessionId ∉ owners t key := fun owner =>
    Finset.disjoint_left.mp idle owner (Finset.mem_insert_self sessionId t.activeSessions)
  rw [indexed.owned] at apart
  have sameIdle : idleOf (t.onSessionActive sessionId now) key = idleOf t key :=
    fieldOf_mapValues key fun _ => by rw [if_neg apart]
  rw [sameIdle]
  exact rested key owned (Finset.disjoint_of_subset_right (Finset.subset_insert sessionId _) idle)

theorem rested_onSessionIdle {t : BlockResidencyTracker T} (indexed : Indexed t) (rested : Rested t)
    (sessionId : String) (now : T) : Rested (t.onSessionIdle sessionId now) := by
  intro key owned idle
  have fewer : (t.onSessionIdle sessionId now).activeSessions = t.activeSessions.erase sessionId := rfl
  rw [owners_onSessionIdle] at owned idle
  rw [fewer] at idle
  cases found : t.blocks.get? key with
  | none => simp [owners, found] at owned
  | some state =>
    have rewritten := get?_onSessionIdle t sessionId now key
    rw [found, Option.map_some, ← owners_of_get? found] at rewritten
    rw [idleOf_of_get? rewritten]
    split
    · rfl
    · next apart =>
      have outside : key ∉ t.getSessionKeys sessionId := fun member => apart ⟨member, idle⟩
      rw [← indexed.owned] at outside
      have still : Disjoint (owners t key) t.activeSessions := by
        rw [← Finset.erase_eq_of_notMem outside, Finset.disjoint_erase_comm]
        exact idle
      rw [← idleOf_of_get? found]
      exact rested key owned still

variable [LinearOrder T] [Zero T]

theorem rested_releaseSession {t : BlockResidencyTracker T} (indexed : Indexed t) (rested : Rested t)
    (sessionId : String) (now : T) : Rested (t.releaseSession sessionId now).2 := by
  intro key owned idle
  have fewer : (t.releaseSession sessionId now).2.activeSessions = t.activeSessions.erase sessionId := rfl
  have rewritten := get?_releaseSession t sessionId now key
  cases found : t.blocks.get? key with
  | none => simp [owners, rewritten, found] at owned
  | some state =>
    rw [found, Option.map_some] at rewritten
    rw [owners_of_get? rewritten] at owned idle
    rw [idleOf_of_get? rewritten]
    rw [fewer] at idle
    by_cases member : key ∈ t.getSessionKeys sessionId
    · -- the block loses an owner: it is marked unless another owner is active
      rw [if_pos member] at idle ⊢
      have settled : Disjoint (state.sessionIds.erase sessionId) (t.activeSessions.erase sessionId) := idle
      rw [released, if_pos settled]
      rfl
    · rw [if_neg member] at owned idle ⊢
      have apart : sessionId ∉ owners t key := by rwa [indexed.owned]
      rw [← owners_of_get? found] at owned idle
      have still : Disjoint (owners t key) t.activeSessions := by
        rw [← Finset.erase_eq_of_notMem apart, Finset.disjoint_erase_comm]
        exact idle
      rw [← idleOf_of_get? found]
      exact rested key owned still

/-- No call of another component takes a mark away from a block with owners. -/
theorem idleOf_call {t : BlockResidencyTracker T} (named : Named t) (call : ResidencyCall T) {key : OffloadKey}
    (owned : owners t key ≠ ∅) : idleOf (t.call call) key = idleOf t key := by
  cases call with
  | markCpuResident keys resident now =>
    refine fieldOf_foldl (fun t value other => fieldOf_touch (fun _ _ => rfl) value now ?_ other) keys key
    exact fun _ => rfl
  | markSecondaryResident keys tier resident now =>
    refine fieldOf_foldl (fun t value other => fieldOf_touch (fun _ _ => rfl) value now ?_ other) keys key
    exact fun _ => rfl
  | startTransfer keys source target now =>
    refine fieldOf_foldl (fun t value other => fieldOf_touch (fun _ _ => rfl) value now ?_ other) keys key
    exact fun _ => rfl
  | finishTransfer keys source target => exact fieldOf_finishTransfer (fun _ _ => rfl) keys source target key
  | clearCpuResidency => exact fieldOf_mapValues key fun _ => rfl
  | prune =>
    change idleOf t.prune.2 key = idleOf t key
    have still : owners t.prune.2 key ≠ ∅ := by rwa [(sameIndex_prune named).owners]
    revert still
    simp only [prune]
    split
    · exact fun _ => rfl
    · simp only [owners, idleOf, fieldOf, Dict.get?_eraseAll]
      split
      · exact fun absent => absurd rfl absent
      · exact fun _ => rfl

theorem rested_call {t : BlockResidencyTracker T} (indexed : Indexed t) (rested : Rested t)
    (call : ResidencyCall T) : Rested (t.call call) := by
  have same := sameIndex_call indexed.named call
  intro key owned idle
  rw [same.owners, same.activeSessions] at idle
  rw [same.owners] at owned
  rw [idleOf_call indexed.named call owned]
  exact rested key owned idle

theorem invariant_rested : Invariant fun t : BlockResidencyTracker T => Indexed t ∧ Rested t where
  active _ _ _ := fun ⟨indexed, rested⟩ =>
    ⟨(onSessionActive_spec indexed _ _).1, rested_onSessionActive indexed rested _ _⟩
  idle _ _ _ := fun ⟨indexed, rested⟩ =>
    ⟨(onSessionIdle_spec indexed _ _).1, rested_onSessionIdle indexed rested _ _⟩
  release _ _ _ := fun ⟨indexed, rested⟩ =>
    ⟨(releaseSession_spec indexed _ _).1, rested_releaseSession indexed rested _ _⟩
  call _ call := fun ⟨indexed, rested⟩ =>
    ⟨(sameIndex_call indexed.named call).indexed indexed, rested_call indexed rested call⟩

/-- Without an age limit, an idle block of one session is a candidate, given room. -/
theorem mem_getIdleCpuCandidates {t : BlockResidencyTracker T} {key : OffloadKey} {block : BlockResidencyState T}
    (named : Named t) (found : t.blocks.get? key = some block) (cpuResident : block.cpuResident = true)
    (copied : block.hasSecondaryCopy = true) (settled : block.hasInflightTransfer = false)
    (inactive : block.hasActiveSession t.activeSessions = false) (unshared : block.isShared = false)
    (marked : block.idleSince.isSome) {limit : ℤ} (room : t.blocks.size ≤ limit) :
    key ∈ t.getIdleCpuCandidates limit none := by
  refine List.mem_map.mpr ⟨block, ?_, named key block found⟩
  rw [sliceTo_of_length_le]
  · rw [mem_sortedBy, List.mem_filter]
    refine ⟨Dict.mem_values_iff.mpr ⟨key, found⟩, ?_⟩
    simp [cpuResident, copied, settled, inactive, unshared, marked]
  · rw [(perm_sortedBy _ _).length_eq]
    have fewer := List.length_filter_le (fun state : BlockResidencyState T =>
      state.cpuResident && state.hasSecondaryCopy && !state.hasInflightTransfer &&
        !state.hasActiveSession t.activeSessions && !state.isShared && state.idleSince.isSome &&
        decide (∀ before ∈ (none : Option T), ∀ since ∈ state.idleSince, since ≤ before)) t.blocks.values
    have size : t.blocks.values.length = t.blocks.size := by rw [Dict.values, List.length_map, Dict.size]
    omega

end BlockResidencyTracker

namespace SessionLifecycleManager

open Model.SessionLifecycleManager BlockResidencyTracker

variable {T : Type} [LinearOrder T] [Zero T] [One T] {m : SessionLifecycleManager T}

/-- Some request of the session is active. -/
def HasActiveRequest (m : SessionLifecycleManager T) (sessionId : String) : Prop :=
  ∃ state, m.sessions.get? sessionId = some state ∧ state.activeReqIds ≠ ∅

/-- No idle block is stuck: it says since when it is idle, and policy gets to see it. -/
structure NoneStuck [Sub T] (m : SessionLifecycleManager T) : Prop where
  marked : ∀ key block, m.residency.blocks.get? key = some block → block.sessionIds ≠ ∅ →
    (∀ sessionId ∈ block.sessionIds, ¬ HasActiveRequest m sessionId) → block.idleSince.isSome
  offered : ∀ key block sessionId state, m.residency.blocks.get? key = some block → block.cpuResident = true →
    block.hasSecondaryCopy = true → block.hasInflightTransfer = false → block.sessionIds = {sessionId} →
    m.sessions.get? sessionId = some state → state.isIdle = true →
    ∀ (limit : ℤ) (clock : ℕ → T), m.residency.blocks.size ≤ limit →
      key ∈ m.getIdleCpuCandidates limit false clock

/-- A call that records an access of a session without an active request names only blocks that have their idle
mark, or an owner that is active. -/
def Covered (m : SessionLifecycleManager T) : LifecycleCall T → Prop
  | .recordRequestKeys reqContext keys _ =>
    ∀ state, m.getByReq reqContext = some state → state.activeReqIds = ∅ → ∀ key ∈ keys,
      ∃ block, m.residency.blocks.get? key = some block ∧
        (block.idleSince.isSome ∨ block.hasActiveSession m.residency.activeSessions = true)
  | _ => True

theorem mem_activeSessions_iff (coherent : Coherent m.sessions m.residency) {sessionId : String} :
    sessionId ∈ m.residency.activeSessions ↔ HasActiveRequest m sessionId := by
  rw [coherent.active]
  refine exists_congr fun state => and_congr_right fun found => ?_
  rcases coherent.status sessionId state found with ⟨active, busy⟩ | ⟨idle, none⟩
  · simp [active, busy]
  · simp [idle, none]

theorem noneStuck_iff [Sub T] (coherent : Coherent m.sessions m.residency) :
    NoneStuck m ↔ Rested m.residency := by
  constructor
  · intro free key owned idle
    cases found : m.residency.blocks.get? key with
    | none => simp [owners, found] at owned
    | some block =>
      rw [owners_of_get? found] at owned idle
      rw [idleOf_of_get? found]
      refine free.marked key block found owned fun sessionId owner active => ?_
      exact Finset.disjoint_left.mp idle owner ((mem_activeSessions_iff coherent).mpr active)
  · intro rested
    have marked : ∀ key block, m.residency.blocks.get? key = some block → block.sessionIds ≠ ∅ →
        (∀ sessionId ∈ block.sessionIds, ¬ HasActiveRequest m sessionId) → block.idleSince.isSome := by
      intro key block found owned idle
      rw [← idleOf_of_get? found]
      rw [← owners_of_get? found] at owned idle
      refine rested key owned (Finset.disjoint_left.mpr fun sessionId owner active => ?_)
      exact idle sessionId owner ((mem_activeSessions_iff coherent).mp active)
    refine ⟨marked, fun key block sessionId state found cpuResident copied settled sole known idle limit clock
      room => ?_⟩
    have inactive : ¬ HasActiveRequest m sessionId := by
      rintro ⟨other, known', busy⟩
      rw [known] at known'
      obtain rfl := Option.some.inj known'
      rcases coherent.status sessionId state known with ⟨active, _⟩ | ⟨_, none⟩
      · simp [SessionKVState.isIdle, active] at idle
      · exact busy none
    have since := marked key block found (by simp [sole]) (by simpa [sole] using inactive)
    rw [← mem_activeSessions_iff coherent] at inactive
    refine mem_getIdleCpuCandidates coherent.indexed.named found cpuResident copied settled ?_ ?_ since room
    · simp [BlockResidencyState.hasActiveSession, sole, inactive]
    · simp [BlockResidencyState.isShared, sole]

/-- Recording keys for a session that is there. -/
theorem rested_access_iff {state : SessionKVState T} (coherent : Coherent m.sessions m.residency)
    (rested : Rested m.residency) (known : m.sessions.get? state.sessionId = some state) (keys : List OffloadKey)
    (now : T) : Rested (m.residency.recordAccess state.sessionId keys now) ↔
      (state.activeReqIds = ∅ → ∀ key ∈ keys, ∃ block, m.residency.blocks.get? key = some block ∧
        (block.idleSince.isSome ∨ block.hasActiveSession m.residency.activeSessions = true)) := by
  have inactive : state.sessionId ∉ m.residency.activeSessions ↔ state.activeReqIds = ∅ := by
    rw [mem_activeSessions_iff coherent, HasActiveRequest]
    simp [known]
  rw [rested_recordAccess_iff coherent.indexed rested, inactive]
  refine forall_congr' fun _ => forall_congr' fun key => forall_congr' fun _ => ?_
  cases found : m.residency.blocks.get? key with
  | none => simp [idleOf, fieldOf, owners, found]
  | some block =>
    rw [idleOf_of_get? found, owners_of_get? found, Finset.disjoint_iff_inter_eq_empty]
    simp [BlockResidencyState.hasActiveSession]

theorem rested_recordRequestKeys_iff (coherent : Coherent m.sessions m.residency) (enabled : m.enabled = true)
    (rested : Rested m.residency) (reqContext : ReqContext) (keys : List OffloadKey) (clock : ℕ → T) :
    Rested (m.recordRequestKeys reqContext keys clock).residency ↔
      Covered m (.recordRequestKeys reqContext keys clock) := by
  have recorded : ∀ state m', m.getOrNew reqContext false clock = (some state, m') →
      (m.recordRequestKeys reqContext keys clock).residency =
        m'.residency.recordAccess state.sessionId keys (clock 3) := by
    intro state m' got
    rw [recordRequestKeys, if_neg (by simp [enabled]), got]
    rfl
  cases found : m.getByReq reqContext with
  | some state =>
    have got : m.getOrNew reqContext false clock = (some state, m) := by rw [getOrNew, found]
    rw [recorded state m got, rested_access_iff coherent rested (get?_of_getByReq coherent.stored found)]
    simp [Covered, found]
  | none =>
    -- the request joins its session first, which is active from then on
    have known := getByReq_onNewRequest coherent.stored reqContext false clock (.inl enabled)
    have got : m.getOrNew reqContext false clock = (some (admitted m reqContext (clock 0)),
        (m.onNewRequest reqContext false clock).2) := by
      rw [getOrNew, found]
      dsimp only
      rw [known]
    have coherent' := coherent_onNewRequest coherent enabled reqContext false clock
    have rested' := (residency_onNewRequest invariant_rested ⟨coherent.indexed, rested⟩ reqContext false clock).2
    obtain ⟨_, _, busy, _⟩ := admitted_fields m reqContext (clock 0) coherent.stored
    rw [recorded _ _ got, rested_access_iff coherent' rested' (get?_of_getByReq coherent'.stored known)]
    refine iff_of_true (fun none => ?_) (fun state absent => ?_)
    · exact absurd none (Finset.ne_empty_of_mem busy)
    · rw [found] at absent
      cases absent

/-- One call keeps the marks if and only if it is covered. -/
theorem rested_call_iff [Add T] (coherent : Coherent m.sessions m.residency) (enabled : m.enabled = true)
    (rested : Rested m.residency) (call : LifecycleCall T) :
    Rested (m.call call).residency ↔ Covered m call := by
  by_cases access : ∃ reqContext keys clock, call = .recordRequestKeys reqContext keys clock
  · obtain ⟨reqContext, keys, clock, rfl⟩ := access
    exact rested_recordRequestKeys_iff coherent enabled rested reqContext keys clock
  · have kept := residency_call invariant_rested call
      (fun reqContext keys clock same => absurd ⟨reqContext, keys, clock, same⟩ access)
      ⟨coherent.indexed, rested⟩
    refine iff_of_true kept.2 ?_
    cases call with
    | recordRequestKeys reqContext keys clock => exact absurd ⟨reqContext, keys, clock, rfl⟩ access
    | _ => trivial

/-- No idle block is ever stuck in a run if and only if every call of it is covered. -/
theorem none_stuck_iff [Add T] [Sub T] (config : LifecycleConfig T) (enabled : config.enabled = true)
    (calls : List (LifecycleCall T)) :
    (∀ before, before <+: calls → NoneStuck (after config before)) ↔
      ∀ before call, before ++ [call] <+: calls → Covered (after config before) call := by
  have coherent := fun before => coherent_after enabled before
  have enabled' : ∀ before, (after config before).enabled = true := fun before => by
    rw [Model.SessionLifecycleManager.enabled, config_after, enabled]
  have next : ∀ before call, after config (before ++ [call]) = (after config before).call call :=
    fun before call => by rw [after, List.foldl_concat, after]
  simp only [fun before => noneStuck_iff (coherent before)]
  constructor
  · intro rested before call within
    have here := rested before ((List.prefix_append before [call]).trans within)
    have there := rested (before ++ [call]) within
    rw [next] at there
    exact (rested_call_iff (coherent before) (enabled' before) here call).mp there
  · intro covered before
    induction before using List.reverseRecOn with
    | nil => exact fun _ key owned => absurd rfl owned
    | append_singleton before call ih =>
      intro within
      have here := ih ((List.prefix_append before [call]).trans within)
      rw [next]
      exact (rested_call_iff (coherent before) (enabled' before) here call).mpr (covered before call within)

theorem none_stuck_iff_sharedCalls :
    (∀ before, before <+: sharedCalls → NoneStuck (after tenUnits before)) ↔
      ∀ before call, before ++ [call] <+: sharedCalls → Covered (after tenUnits before) call :=
  none_stuck_iff tenUnits (by decide) sharedCalls

/-- The keys of a request are recorded after the request has finished. -/
def lateKeys : List (LifecycleCall ℤ) :=
  [.onNewRequest (conversation "r1" "s1") false fun _ => 0,
    .onRequestFinished (conversation "r1" "s1") false fun _ => 1,
    .recordRequestKeys (conversation "r1" "s1") [[1]] fun _ => 2,
    .residency (.markCpuResident [[1]] true 3),
    .residency (.markSecondaryResident [[1]] "fs" true 3)]

/-- Their block has no idle mark, and is never offered. -/
theorem none_stuck_lateKeys : ¬ NoneStuck (after tenUnits lateKeys) := by
  intro free
  have facts : ((after tenUnits lateKeys).residency.blocks.get? [1]).map (fun block =>
      (block.cpuResident, block.hasSecondaryCopy, block.hasInflightTransfer, block.sessionIds)) =
      some (true, true, false, {"s1"}) := by decide
  have resting : ((after tenUnits lateKeys).sessions.get? "s1").map (fun state => state.isIdle) = some true := by
    decide
  obtain ⟨block, found, same⟩ := Option.map_eq_some_iff.mp facts
  simp only [Prod.mk.injEq] at same
  obtain ⟨cpuResident, copied, settled, sole⟩ := same
  obtain ⟨state, known, idle⟩ := Option.map_eq_some_iff.mp resting
  have offered := free.offered [1] block "s1" state found cpuResident copied settled sole known idle 8
    (fun _ => 0) (by decide)
  have skipped : [1] ∉ (after tenUnits lateKeys).getIdleCpuCandidates 8 false fun _ => 0 := by decide
  exact skipped offered

end SessionLifecycleManager

end KVTiering.Soundness
