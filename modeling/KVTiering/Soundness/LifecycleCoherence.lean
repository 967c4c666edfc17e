import KVTiering.Soundness.LifecycleSpec

/-! # Coherence of sessions and residency

Whether a session is active is stored in its status, in its set of active requests and in the tracker; which
keys it owns is stored in the session, in the tracker's key sets and in the blocks. Every call of an enabled
manager keeps these in agreement, so that a block of a session with an active request is never offered for
demotion.
-/

namespace KVTiering.Soundness

open Model

namespace SessionLifecycleManager

open Model.SessionLifecycleManager BlockResidencyTracker

variable {T : Type}

/-- The sessions of the manager and the residency tracker tell the same story. -/
structure Coherent (sessions : Dict String (SessionKVState T)) (t : BlockResidencyTracker T) : Prop where
  stored : Stored sessions
  status : ∀ sessionId state, sessions.get? sessionId = some state →
    state.status = .active ∧ state.activeReqIds ≠ ∅ ∨ state.status = .idleRetained ∧ state.activeReqIds = ∅
  active : ∀ sessionId, sessionId ∈ t.activeSessions ↔
    ∃ state, sessions.get? sessionId = some state ∧ state.status = .active
  keys : ∀ sessionId state, sessions.get? sessionId = some state → t.getSessionKeys sessionId = state.blockKeys
  gone : ∀ sessionId, sessions.get? sessionId = none → t.sessionKeys.get? sessionId = none
  indexed : Indexed t

namespace Coherent

variable {sessions sessions' : Dict String (SessionKVState T)} {t : BlockResidencyTracker T}

/-- Coherence looks at the sessions through lookups only. -/
theorem congr (coherent : Coherent sessions t)
    (same : ∀ sessionId, sessions'.get? sessionId = sessions.get? sessionId) : Coherent sessions' t where
  stored sessionId := by rw [same]; exact coherent.stored sessionId
  status sessionId := by rw [same]; exact coherent.status sessionId
  active sessionId := by rw [same]; exact coherent.active sessionId
  keys sessionId := by rw [same]; exact coherent.keys sessionId
  gone sessionId := by rw [same]; exact coherent.gone sessionId
  indexed := coherent.indexed

/-- A session is removed from both. -/
theorem remove (coherent : Coherent sessions t) (sessionId : String) (now : T) [LinearOrder T] [Zero T] :
    Coherent (sessions.erase sessionId) (t.releaseSession sessionId now).2 := by
  obtain ⟨indexed, sessionKeys, activeSessions, _⟩ := releaseSession_spec coherent.indexed sessionId now
  refine ⟨coherent.stored.erase sessionId, fun other state found => ?_, fun other => ?_,
    fun other state found => ?_, fun other absent => ?_, indexed⟩
  · rw [Dict.get?_erase] at found
    split at found
    · cases found
    · exact coherent.status other state found
  · rw [activeSessions, Finset.mem_erase, Dict.get?_erase, coherent.active]
    split <;> simp_all
  · rw [Dict.get?_erase] at found
    split at found
    · cases found
    · next differ =>
      rw [← coherent.keys other state found, getSessionKeys, sessionKeys, Dict.get?_erase, if_neg differ]
      rfl
  · rw [sessionKeys, Dict.get?_erase]
    split
    · rfl
    · next differ => exact coherent.gone other (by rwa [Dict.get?_erase, if_neg differ] at absent)

/-- The tracker is changed without touching sessions and owners. -/
theorem sameIndex {t' : BlockResidencyTracker T} (coherent : Coherent sessions t) (same : SameIndex t t') :
    Coherent sessions t' where
  stored := coherent.stored
  status := coherent.status
  active sessionId := by rw [same.activeSessions]; exact coherent.active sessionId
  keys sessionId state found := by rw [same.getSessionKeys]; exact coherent.keys sessionId state found
  gone sessionId absent := by rw [same.sessionKeys]; exact coherent.gone sessionId absent
  indexed := same.indexed coherent.indexed

end Coherent

variable [LinearOrder T] [Zero T] [One T]

/-- A session is rewritten, and the tracker follows: what has to be shown of that session alone. -/
theorem Coherent.put {m : SessionLifecycleManager T} {t : BlockResidencyTracker T} {state : SessionKVState T}
    (coherent : Coherent m.sessions m.residency)
    (status : state.status = .active ∧ state.activeReqIds ≠ ∅ ∨
      state.status = .idleRetained ∧ state.activeReqIds = ∅)
    (indexed : Indexed t)
    (active : ∀ sessionId, sessionId ∈ t.activeSessions ↔
      if sessionId = state.sessionId then state.status = .active else sessionId ∈ m.residency.activeSessions)
    (keys : t.getSessionKeys state.sessionId = state.blockKeys)
    (others : ∀ sessionId, sessionId ≠ state.sessionId →
      t.sessionKeys.get? sessionId = m.residency.sessionKeys.get? sessionId) :
    Coherent (m.put state).sessions t where
  stored := coherent.stored.set state
  status sessionId known found := by
    rw [Model.SessionLifecycleManager.put, Dict.get?_set] at found
    split at found
    · obtain rfl := Option.some.inj found
      exact status
    · exact coherent.status sessionId known found
  active sessionId := by
    rw [active, Model.SessionLifecycleManager.put, Dict.get?_set]
    split
    · simp
    · exact coherent.active sessionId
  keys sessionId known found := by
    rw [Model.SessionLifecycleManager.put, Dict.get?_set] at found
    split at found
    · next same =>
      obtain rfl := Option.some.inj found
      rw [same, keys]
    · next other =>
      rw [← coherent.keys sessionId known found, getSessionKeys, others sessionId other, getSessionKeys]
  gone sessionId absent := by
    rw [Model.SessionLifecycleManager.put, Dict.get?_set] at absent
    split at absent
    · cases absent
    · next other => rw [others sessionId other, coherent.gone sessionId absent]
  indexed := indexed

/-- A session is rewritten in fields that the tracker does not follow. -/
theorem Coherent.refresh {m : SessionLifecycleManager T} {old state : SessionKVState T}
    (coherent : Coherent m.sessions m.residency) (found : m.sessions.get? old.sessionId = some old)
    (sessionId : state.sessionId = old.sessionId) (status : state.status = old.status)
    (activeReqIds : state.activeReqIds = old.activeReqIds) (blockKeys : state.blockKeys = old.blockKeys) :
    Coherent (m.put state).sessions (m.put state).residency := by
  rw [← sessionId] at found
  refine coherent.put ?_ coherent.indexed (fun sessionId => ?_) ?_ fun _ _ => rfl
  · rw [status, activeReqIds]
    exact coherent.status _ old found
  · split
    · next same => simp [Model.SessionLifecycleManager.put, coherent.active, same, found, status]
    · rfl
  · rw [blockKeys]
    exact coherent.keys _ old found

theorem coherent_onNewRequest {m : SessionLifecycleManager T} (coherent : Coherent m.sessions m.residency)
    (enabled : m.enabled = true) (reqContext : ReqContext) (trackHeat : Bool) (clock : ℕ → T) :
    Coherent (m.onNewRequest reqContext trackHeat clock).2.sessions
      (m.onNewRequest reqContext trackHeat clock).2.residency := by
  obtain ⟨_, sessions, _, residency, _⟩ :=
    onNewRequest_spec coherent.stored reqContext trackHeat clock (.inl enabled)
  obtain ⟨sessionId, status, member, _, blockKeys⟩ :=
    admitted_fields m reqContext (clock 0) coherent.stored
  obtain ⟨indexed, sessionKeys, activeSessions⟩ :=
    onSessionActive_spec coherent.indexed (getSessionId reqContext) (clock 1)
  rw [residency, if_pos enabled]
  have admitting : Coherent (m.put (admitted m reqContext (clock 0))).sessions
      (m.residency.onSessionActive (getSessionId reqContext) (clock 1)) := by
    refine coherent.put (.inl ⟨status, Finset.ne_empty_of_mem member⟩) indexed (fun other => ?_) ?_
      fun other _ => by rw [sessionKeys]
    · rw [activeSessions, Finset.mem_insert, sessionId]
      split <;> simp_all
    · rw [sessionId, blockKeys, getSessionKeys, sessionKeys]
      cases found : m.sessions.get? (getSessionId reqContext) with
      | none => simp [coherent.gone _ found]
      | some state => exact coherent.keys _ state found
  apply admitting.congr
  intro other
  rw [sessions, Model.SessionLifecycleManager.put, Dict.get?_set, sessionId]

theorem coherent_recordReuseHit {m : SessionLifecycleManager T} (coherent : Coherent m.sessions m.residency)
    (reqContext : ReqContext) (numBlocks : ℤ) (clock : ℕ → T) :
    Coherent (m.recordReuseHit reqContext numBlocks clock).sessions
      (m.recordReuseHit reqContext numBlocks clock).residency := by
  unfold recordReuseHit
  cases known : m.getByReq reqContext with
  | none => exact coherent
  | some state =>
    have found := get?_of_getByReq coherent.stored known
    dsimp only
    split <;> exact coherent.refresh found rfl rfl rfl rfl

/-- What `getOrNew` finds or makes, in a coherent manager. -/
theorem coherent_getOrNew {m : SessionLifecycleManager T} (coherent : Coherent m.sessions m.residency)
    (enabled : m.enabled = true) (reqContext : ReqContext) (trackHeat : Bool) (clock : ℕ → T) :
    ∃ state m', m.getOrNew reqContext trackHeat clock = (some state, m') ∧
      m'.sessions.get? state.sessionId = some state ∧ Coherent m'.sessions m'.residency ∧
      m'.config = m.config := by
  obtain ⟨state, found, known, same | same⟩ :=
    getOrNew_spec coherent.stored reqContext trackHeat clock (.inl enabled)
  · exact ⟨state, m, Prod.ext found same, same ▸ known, coherent, rfl⟩
  · rw [same] at known
    refine ⟨state, _, Prod.ext found same, known, ?_, ?_⟩
    · exact coherent_onNewRequest coherent enabled reqContext trackHeat clock
    · exact (onNewRequest_spec coherent.stored reqContext trackHeat clock (.inl enabled)).1

theorem coherent_recordRequestKeys {m : SessionLifecycleManager T} (coherent : Coherent m.sessions m.residency)
    (enabled : m.enabled = true) (reqContext : ReqContext) (keys : List OffloadKey) (clock : ℕ → T) :
    Coherent (m.recordRequestKeys reqContext keys clock).sessions
      (m.recordRequestKeys reqContext keys clock).residency := by
  obtain ⟨state, m', found, known, coherent', _⟩ := coherent_getOrNew coherent enabled reqContext false clock
  obtain ⟨indexed, sessionKeys, activeSessions⟩ :=
    recordAccess_spec coherent'.indexed state.sessionId keys (clock 3)
  rw [recordRequestKeys, if_neg (by simp [enabled]), found]
  change Coherent (m'.put { state with
    blockKeys := state.blockKeys ∪ keys.toFinset
    lastAccessAt := clock 2 }).sessions (m'.residency.recordAccess state.sessionId keys (clock 3))
  refine coherent'.put (coherent'.status _ state known) indexed (fun other => ?_) ?_ fun other differ => ?_
  · rw [activeSessions]
    split
    · next same => simp [coherent'.active, same, known]
    · rfl
  · rw [getSessionKeys, sessionKeys, Dict.get?_set, if_pos rfl, Option.getD_some, coherent'.keys _ state known]
  · rw [sessionKeys, Dict.get?_set, if_neg differ]

theorem coherent_onRequestFinished [Add T] {m : SessionLifecycleManager T}
    (coherent : Coherent m.sessions m.residency) (enabled : m.enabled = true) (reqContext : ReqContext)
    (trackHeat : Bool) (clock : ℕ → T) :
    Coherent (m.onRequestFinished reqContext trackHeat clock).sessions
      (m.onRequestFinished reqContext trackHeat clock).residency := by
  obtain ⟨state, m', found, known, coherent', config⟩ := coherent_getOrNew coherent enabled reqContext trackHeat clock
  have enabled' : m'.enabled = true := by simpa only [Model.SessionLifecycleManager.enabled, config] using enabled
  rw [onRequestFinished, if_neg (by simp [enabled]), found]
  dsimp only
  split
  · next busy =>
    -- other requests keep the session active
    have wasActive : state.status = .active := by
      rcases coherent'.status _ state known with ⟨active, _⟩ | ⟨_, none⟩
      · exact active
      · simp [none] at busy
    refine coherent'.put (.inl ⟨wasActive, busy⟩) coherent'.indexed (fun other => ?_)
      (coherent'.keys _ state known) fun _ _ => rfl
    split
    · next same =>
      simp [Model.SessionLifecycleManager.put, coherent'.active, same, known, wasActive]
    · rfl
  · next last =>
    -- the last active request has finished: the session turns idle on both sides
    obtain ⟨indexed, sessionKeys, activeSessions⟩ :=
      onSessionIdle_spec coherent'.indexed state.sessionId (clock 3)
    change Coherent (m'.put { state with
      activeReqIds := state.activeReqIds.erase reqContext.reqId
      retainedReqIds := insert reqContext.reqId state.retainedReqIds
      lastAccessAt := clock 2
      status := .idleRetained
      ttlDeadline := _ }).sessions
      (if m'.enabled then m'.residency.onSessionIdle state.sessionId (clock 3) else m'.residency)
    rw [if_pos enabled']
    refine coherent'.put (.inr ⟨rfl, not_not.mp last⟩) indexed (fun other => ?_) ?_ fun other _ => by
      rw [sessionKeys]
    · rw [activeSessions, Finset.mem_erase]
      split <;> simp_all
    · rw [getSessionKeys, sessionKeys]
      exact coherent'.keys _ state known

theorem coherent_onRequestFinalized {m : SessionLifecycleManager T} (coherent : Coherent m.sessions m.residency)
    (reqContext : ReqContext) (clock : ℕ → T) :
    Coherent (m.onRequestFinalized reqContext clock).sessions
      (m.onRequestFinalized reqContext clock).residency := by
  unfold onRequestFinalized
  cases found : m.getByReq reqContext with
  | none => exact coherent
  | some state =>
    let m' : SessionLifecycleManager T := { m with reqToSession := m.reqToSession.erase reqContext.reqId }
    have known : m.sessions.get? state.sessionId = some state := get?_of_getByReq coherent.stored found
    have updated : Coherent (m'.put { state with
        retainedReqIds := state.retainedReqIds.erase reqContext.reqId }).sessions m'.residency :=
      Coherent.refresh (m := m') coherent known rfl rfl rfl rfl
    dsimp only
    split
    · exact updated
    · split
      · exact updated
      · exact updated.remove state.sessionId (clock 0)

/-- A loop that removes sessions keeps the manager coherent, whichever sessions it removes. -/
theorem coherent_remove {m : SessionLifecycleManager T} (coherent : Coherent m.sessions m.residency)
    (state : SessionKVState T) (now : T) :
    Coherent (m.remove state now).2.sessions (m.remove state now).2.residency :=
  coherent.remove state.sessionId now

theorem coherent_expireLoop (now : T) (protectedKeys : Finset OffloadKey) (protectedReqIds : Finset String)
    (clock : ℕ → T) (order : List (SessionKVState T)) {m : SessionLifecycleManager T}
    (coherent : Coherent m.sessions m.residency) :
    Coherent (expireLoop now protectedKeys protectedReqIds clock order m).2.sessions
      (expireLoop now protectedKeys protectedReqIds clock order m).2.residency := by
  refine List.foldlRecOn order _ (motive := fun (acc : ExpirationResult × SessionLifecycleManager T) =>
    Coherent acc.2.sessions acc.2.residency) coherent fun acc kept state _ => ?_
  unfold expireOne
  split
  · exact coherent_remove kept state _
  · exact kept

theorem coherent_pruneIdleSessions (clock : ℕ → T) {m : SessionLifecycleManager T}
    (coherent : Coherent m.sessions m.residency) :
    Coherent (m.pruneIdleSessions clock).2.sessions (m.pruneIdleSessions clock).2.residency := by
  simp only [pruneIdleSessions, pruneIdleSessionsIn]
  split
  · exact coherent
  · exact List.foldlRecOn _ _ (motive := fun (acc : ExpirationResult × SessionLifecycleManager T) =>
      Coherent acc.2.sessions acc.2.residency) coherent fun acc kept state _ => coherent_remove kept state _

variable [Add T]

/-- Every call of an enabled manager keeps sessions and residency coherent. -/
theorem coherent_call {m : SessionLifecycleManager T} (coherent : Coherent m.sessions m.residency)
    (enabled : m.enabled = true) (call : LifecycleCall T) :
    Coherent (m.call call).sessions (m.call call).residency := by
  cases call with
  | onNewRequest => exact coherent_onNewRequest coherent enabled ..
  | recordReuseHit => exact coherent_recordReuseHit coherent ..
  | recordRequestKeys => exact coherent_recordRequestKeys coherent enabled ..
  | onRequestFinished => exact coherent_onRequestFinished coherent enabled ..
  | onRequestFinalized => exact coherent_onRequestFinalized coherent ..
  | expireIdleSessions protectedKeys protectedReqIds clock =>
    simp only [Model.SessionLifecycleManager.call, expireIdleSessions, expireIdleSessionsIn]
    split
    · exact coherent
    · split
      · exact coherent
      · exact coherent_expireLoop _ _ _ _ _ coherent
  | pruneIdleSessions clock => exact coherent_pruneIdleSessions clock coherent
  | residency call => exact coherent.sameIndex (sameIndex_call coherent.indexed.named call)

theorem coherent_after {config : LifecycleConfig T} (enabled : config.enabled = true)
    (calls : List (LifecycleCall T)) :
    Coherent (after config calls).sessions (after config calls).residency := by
  refine (after_induction (fun m => m.config = config ∧ Coherent m.sessions m.residency) config
    ⟨rfl, ?_⟩ (fun m call kept => ⟨(config_call m call).trans kept.1, ?_⟩) calls).2
  · exact
      { stored := fun _ _ found => by cases found
        status := fun _ _ found => by cases found
        active := fun _ => by simp [Model.SessionLifecycleManager.init, Model.BlockResidencyTracker.init]
        keys := fun _ _ found => by cases found
        gone := fun _ _ => rfl
        indexed := indexed_init _ _ }
  · exact coherent_call kept.2 (by rw [Model.SessionLifecycleManager.enabled, kept.1, enabled]) call

/-- In every reachable state of an enabled manager: a session is active exactly when it has an active request
and idle otherwise, the tracker's active sessions are the active ones, the keys of a session are the tracker's
keys for it, nothing is left of a deleted session in the tracker, and no key of a session with an active
request is a candidate for demotion. -/
theorem lifecycle_coherence [Sub T] (config : LifecycleConfig T) (enabled : config.enabled = true)
    (calls : List (LifecycleCall T)) :
    let m := after config calls
    (∀ sessionId state, m.sessions.get? sessionId = some state →
      (state.status = .active ↔ state.activeReqIds ≠ ∅) ∧
        (state.status = .idleRetained ↔ state.activeReqIds = ∅)) ∧
      (∀ sessionId, sessionId ∈ m.residency.activeSessions ↔
        ∃ state, m.sessions.get? sessionId = some state ∧ state.status = .active) ∧
      (∀ sessionId state, m.sessions.get? sessionId = some state →
        m.residency.getSessionKeys sessionId = state.blockKeys) ∧
      (∀ sessionId, m.sessions.get? sessionId = none →
        m.residency.sessionKeys.get? sessionId = none ∧ sessionId ∉ m.residency.activeSessions ∧
          ∀ key, sessionId ∉ owners m.residency key) ∧
      ∀ sessionId state, m.sessions.get? sessionId = some state → state.activeReqIds ≠ ∅ →
        ∀ key ∈ state.blockKeys,
          (∀ limit idleBefore, key ∉ m.residency.getIdleCpuCandidates limit idleBefore) ∧
            ∀ limit requireIdleAge clock, key ∉ m.getIdleCpuCandidates limit requireIdleAge clock := by
  intro m
  have coherent : Coherent m.sessions m.residency := coherent_after enabled calls
  refine ⟨fun sessionId state found => ?_, coherent.active, coherent.keys, fun sessionId absent => ?_,
    fun sessionId state found busy key recorded => ?_⟩
  · rcases coherent.status sessionId state found with ⟨active, some⟩ | ⟨idle, none⟩
    · simp [active, some]
    · simp [idle, none]
  · have noKeys := coherent.gone sessionId absent
    refine ⟨noKeys, fun active => ?_, fun key owner => ?_⟩
    · obtain ⟨state, found, _⟩ := (coherent.active sessionId).mp active
      simp [absent] at found
    · rw [coherent.indexed.owned, getSessionKeys, noKeys] at owner
      simp at owner
  · have active : sessionId ∈ m.residency.activeSessions := by
      refine (coherent.active sessionId).mpr ⟨state, found, ?_⟩
      rcases coherent.status sessionId state found with ⟨active, _⟩ | ⟨_, none⟩
      · exact active
      · exact absurd none busy
    rw [← coherent.keys sessionId state found] at recorded
    have excluded : ∀ limit idleBefore, key ∉ m.residency.getIdleCpuCandidates limit idleBefore :=
      fun limit idleBefore member => inactive_of_candidate coherent.indexed member sessionId active recorded
    refine ⟨excluded, fun limit requireIdleAge clock member => ?_⟩
    unfold Model.SessionLifecycleManager.getIdleCpuCandidates at member
    split at member
    · split at member
      · simp at member
      · exact excluded _ _ member
    · exact excluded _ _ member

/-- A configuration with a deadline of ten clock units. -/
def tenUnits : LifecycleConfig ℤ where
  idleTtlSec := 10
  cpuDemoteAfterSec := 0
  cpuHighWatermark := 1
  cpuLowWatermark := 1
  reclaimBatchSize := 64
  residencyMaxEntries := 64000
  maxSessions := 4096
  residencyTrackingEnabled := false
  idleTtlSec_nonneg := by decide
  cpuDemoteAfterSec_nonneg := by decide
  cpuLowWatermark_pos := by decide
  cpuLowWatermark_le := by decide
  cpuHighWatermark_le := by decide
  reclaimBatchSize_pos := by decide
  residencyMaxEntries_pos := by decide
  maxSessions_pos := by decide

/-- A request of a conversation, by name. -/
def conversation (reqId session : String) : ReqContext :=
  ⟨reqId, some (Dict.empty.set "session_id" (.str session))⟩

/-- Two requests share a block; the first one finishes, the second one does not. -/
def sharedCalls : List (LifecycleCall ℤ) :=
  [.onNewRequest (conversation "r1" "s1") false fun _ => 0,
    .recordRequestKeys (conversation "r1" "s1") [[1], [2]] fun _ => 1,
    .onNewRequest (conversation "r2" "s2") false fun _ => 2,
    .recordRequestKeys (conversation "r2" "s2") [[2]] fun _ => 3,
    .onRequestFinished (conversation "r1" "s1") false fun _ => 4,
    .residency (.markCpuResident [[1], [2]] true 5),
    .residency (.markSecondaryResident [[1], [2]] "fs" true 5)]

theorem lifecycle_coherence_sharedCalls :
    [2] ∉ (after tenUnits sharedCalls).residency.getIdleCpuCandidates 8 none := by
  have coherence := lifecycle_coherence tenUnits (by decide) sharedCalls
  have found : ((after tenUnits sharedCalls).sessions.get? "s2").map (fun state =>
      (decide (state.activeReqIds ≠ ∅), decide ([2] ∈ state.blockKeys))) = some (true, true) := by decide
  obtain ⟨state, found, facts⟩ := Option.map_eq_some_iff.mp found
  simp only [Prod.mk.injEq, decide_eq_true_eq] at facts
  exact (coherence.2.2.2.2 "s2" state found facts.1 [2] facts.2).1 8 none

end SessionLifecycleManager

end KVTiering.Soundness
