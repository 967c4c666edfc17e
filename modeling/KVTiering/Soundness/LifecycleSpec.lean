import KVTiering.Model.Lifecycle
import KVTiering.Soundness.Residency

/-! # What the lifecycle methods do

One specification for each method of the manager, in terms of lookups. They need only that every session is
stored under its own identifier.
-/

namespace KVTiering.Soundness

open Model

namespace SessionLifecycleManager

open Model.SessionLifecycleManager

variable {T : Type}

/-- Every session is stored under its own identifier. -/
def Stored (sessions : Dict String (SessionKVState T)) : Prop :=
  ∀ sessionId state, sessions.get? sessionId = some state → state.sessionId = sessionId

theorem Stored.set {sessions : Dict String (SessionKVState T)} (stored : Stored sessions)
    (state : SessionKVState T) : Stored (sessions.set state.sessionId state) := by
  intro sessionId found known
  rw [Dict.get?_set] at known
  split at known
  · next same =>
    obtain rfl := Option.some.inj known
    exact same.symm
  · exact stored sessionId found known

theorem Stored.erase {sessions : Dict String (SessionKVState T)} (stored : Stored sessions)
    (gone : String) : Stored (sessions.erase gone) := by
  intro sessionId state known
  rw [Dict.get?_erase] at known
  split at known
  · cases known
  · exact stored sessionId state known

/-- Each session occurs once among the values, under its own identifier. -/
theorem nodup_sessionIds {sessions : Dict String (SessionKVState T)} (stored : Stored sessions) :
    (sessions.values.map fun state => state.sessionId).Nodup := by
  have same : (sessions.values.map fun state => state.sessionId) = sessions.keys := by
    rw [Dict.values, Dict.keys, List.map_map]
    apply List.map_congr_left
    intro item member
    exact stored item.1 item.2 (Dict.get?_eq_some_iff.mpr member)
  rw [same]
  exact sessions.nodup

/-- A list of sessions taken from the values of the manager. -/
theorem present_of_mem_values {sessions : Dict String (SessionKVState T)} (stored : Stored sessions)
    {state : SessionKVState T} (member : state ∈ sessions.values) :
    sessions.get? state.sessionId = some state := by
  obtain ⟨sessionId, found⟩ := Dict.mem_values_iff.mp member
  rw [stored sessionId state found, found]

variable [LinearOrder T] [Zero T] [One T]

/-- The session of a new request, as `on_new_request` leaves it. -/
def admitted (m : SessionLifecycleManager T) (reqContext : ReqContext) (now : T) : SessionKVState T :=
  let state : SessionKVState T :=
    match m.sessions.get? (getSessionId reqContext) with
    | none => .init (getSessionId reqContext) (hasStableSessionId reqContext) now
    | some state => { state with status := .active, lastAccessAt := now, ttlDeadline := none }
  { state with
    activeReqIds := insert reqContext.reqId state.activeReqIds
    retainedReqIds := state.retainedReqIds.erase reqContext.reqId
    requestCount := state.requestCount + 1 }

theorem admitted_fields (m : SessionLifecycleManager T) (reqContext : ReqContext) (now : T)
    (stored : Stored m.sessions) :
    (admitted m reqContext now).sessionId = getSessionId reqContext ∧
      (admitted m reqContext now).status = .active ∧
      reqContext.reqId ∈ (admitted m reqContext now).activeReqIds ∧
      (admitted m reqContext now).ttlDeadline = none ∧
      (admitted m reqContext now).blockKeys =
        ((m.sessions.get? (getSessionId reqContext)).map fun state => state.blockKeys).getD ∅ := by
  unfold admitted
  cases found : m.sessions.get? (getSessionId reqContext) with
  | none => simp [SessionKVState.init]
  | some state => simp [stored _ state found]

/-- `on_new_request` admits the request to its session and refreshes the gate if it found the session. -/
theorem onNewRequest_spec {m : SessionLifecycleManager T} (stored : Stored m.sessions) (reqContext : ReqContext)
    (trackHeat : Bool) (clock : ℕ → T) (on : m.enabled = true ∨ trackHeat = true) :
    let m' := (m.onNewRequest reqContext trackHeat clock).2
    m'.config = m.config ∧
      (∀ sessionId, m'.sessions.get? sessionId =
        if sessionId = getSessionId reqContext then some (admitted m reqContext (clock 0))
        else m.sessions.get? sessionId) ∧
      m'.reqToSession = m.reqToSession.set reqContext.reqId (getSessionId reqContext) ∧
      m'.residency =
        (if m.enabled then m.residency.onSessionActive (getSessionId reqContext) (clock 1) else m.residency) ∧
      (m'.nextExpirationAt = m.nextExpirationAt ∨ ∃ state, state.sessionId = getSessionId reqContext ∧
        state.status = .active ∧ m'.nextExpirationAt = (m.put state).refreshNextExpiration.nextExpirationAt) := by
  intro m'
  have going : ¬ (¬ m.enabled = true ∧ ¬ trackHeat = true) := by tauto
  have unfolded : m' = m.admitRequest reqContext (getSessionId reqContext) clock := by
    simp only [m', onNewRequest, if_neg going]
  obtain ⟨sameId, _⟩ := admitted_fields m reqContext (clock 0) stored
  rw [unfolded]
  cases found : m.sessions.get? (getSessionId reqContext) with
  | none =>
    simp only [admitRequest, admitted, found] at sameId ⊢
    refine ⟨rfl, fun sessionId => ?_, rfl, rfl, .inl rfl⟩
    simp only [put, Dict.get?_set, sameId]
  | some state =>
    have stateId := stored _ state found
    simp only [admitRequest, admitted, found] at sameId ⊢
    refine ⟨rfl, fun sessionId => ?_, rfl, rfl, .inr
      ⟨{ state with status := .active, lastAccessAt := clock 0, ttlDeadline := none }, stateId, rfl, rfl⟩⟩
    simp only [put, refreshNextExpiration, Dict.get?_set, stateId]
    split <;> rfl

theorem Stored.onNewRequest {m : SessionLifecycleManager T} (stored : Stored m.sessions)
    (reqContext : ReqContext) (trackHeat : Bool) (clock : ℕ → T) :
    Stored (m.onNewRequest reqContext trackHeat clock).2.sessions := by
  by_cases on : m.enabled = true ∨ trackHeat = true
  · intro sessionId state found
    rw [(onNewRequest_spec stored reqContext trackHeat clock on).2.1] at found
    split at found
    · next same =>
      obtain rfl := Option.some.inj found
      rw [(admitted_fields m reqContext (clock 0) stored).1, same]
    · exact stored sessionId state found
  · have off : ¬ m.enabled = true ∧ ¬ trackHeat = true := by tauto
    simpa only [Model.SessionLifecycleManager.onNewRequest, if_pos off] using stored

/-- After `on_new_request` the request finds its session: the assertions of the source hold. -/
theorem getByReq_onNewRequest {m : SessionLifecycleManager T} (stored : Stored m.sessions)
    (reqContext : ReqContext) (trackHeat : Bool) (clock : ℕ → T) (on : m.enabled = true ∨ trackHeat = true) :
    (m.onNewRequest reqContext trackHeat clock).2.getByReq reqContext =
      some (admitted m reqContext (clock 0)) := by
  obtain ⟨_, sessions, reqToSession, _⟩ := onNewRequest_spec stored reqContext trackHeat clock on
  simp only [getByReq, reqToSession, Dict.get?_set, if_true, Option.getD_some, sessions]

/-- A session found for a request is stored under its identifier. -/
theorem get?_of_getByReq {m : SessionLifecycleManager T} {reqContext : ReqContext} {state : SessionKVState T}
    (stored : Stored m.sessions) (found : m.getByReq reqContext = some state) :
    m.sessions.get? state.sessionId = some state := by
  rw [stored _ state found]
  exact found

/-- `getOrNew` returns a stored session, in the manager given or in the one after `on_new_request`. -/
theorem getOrNew_spec {m : SessionLifecycleManager T} (stored : Stored m.sessions) (reqContext : ReqContext)
    (trackHeat : Bool) (clock : ℕ → T) (on : m.enabled = true ∨ trackHeat = true) :
    ∃ state, (m.getOrNew reqContext trackHeat clock).1 = some state ∧
      (m.getOrNew reqContext trackHeat clock).2.sessions.get? state.sessionId = some state ∧
      ((m.getOrNew reqContext trackHeat clock).2 = m ∨
        (m.getOrNew reqContext trackHeat clock).2 = (m.onNewRequest reqContext trackHeat clock).2) := by
  unfold getOrNew
  cases found : m.getByReq reqContext with
  | some state => exact ⟨state, rfl, get?_of_getByReq stored found, .inl rfl⟩
  | none =>
    have known := getByReq_onNewRequest stored reqContext trackHeat clock on
    exact ⟨_, known, get?_of_getByReq (stored.onNewRequest reqContext trackHeat clock) known, .inr rfl⟩

/-! ## The configuration never changes -/

theorem config_onNewRequest (m : SessionLifecycleManager T) (reqContext : ReqContext) (trackHeat : Bool)
    (clock : ℕ → T) : (m.onNewRequest reqContext trackHeat clock).2.config = m.config := by
  simp only [onNewRequest]
  split
  · rfl
  · simp only [admitRequest]
    cases m.sessions.get? (getSessionId reqContext) <;> rfl

theorem config_getOrNew (m : SessionLifecycleManager T) (reqContext : ReqContext) (trackHeat : Bool)
    (clock : ℕ → T) : (m.getOrNew reqContext trackHeat clock).2.config = m.config := by
  unfold getOrNew
  cases m.getByReq reqContext with
  | some state => rfl
  | none => exact config_onNewRequest m reqContext trackHeat clock

theorem config_recordReuseHit (m : SessionLifecycleManager T) (reqContext : ReqContext) (numBlocks : ℤ)
    (clock : ℕ → T) : (m.recordReuseHit reqContext numBlocks clock).config = m.config := by
  unfold recordReuseHit
  cases m.getByReq reqContext <;> rfl

theorem config_recordRequestKeys (m : SessionLifecycleManager T) (reqContext : ReqContext)
    (keys : List OffloadKey) (clock : ℕ → T) :
    (m.recordRequestKeys reqContext keys clock).config = m.config := by
  have kept := config_getOrNew m reqContext false clock
  unfold recordRequestKeys
  split
  · rfl
  · split <;> next found => rw [found] at kept; exact kept

theorem config_onRequestFinalized (m : SessionLifecycleManager T) (reqContext : ReqContext) (clock : ℕ → T) :
    (m.onRequestFinalized reqContext clock).config = m.config := by
  unfold onRequestFinalized
  cases m.getByReq reqContext with
  | none => rfl
  | some state => dsimp only; split <;> [rfl; split <;> rfl]

theorem config_expireLoop (now : T) (protectedKeys : Finset OffloadKey) (protectedReqIds : Finset String)
    (clock : ℕ → T) (order : List (SessionKVState T)) (m : SessionLifecycleManager T) :
    (expireLoop now protectedKeys protectedReqIds clock order m).2.config = m.config := by
  refine List.foldlRecOn order _ (motive := fun (acc : ExpirationResult × SessionLifecycleManager T) =>
    acc.2.config = m.config) rfl fun acc kept state _ => ?_
  unfold expireOne
  split <;> exact kept

theorem config_pruneIdleSessions (m : SessionLifecycleManager T) (clock : ℕ → T) :
    (m.pruneIdleSessions clock).2.config = m.config := by
  simp only [pruneIdleSessions, pruneIdleSessionsIn]
  split
  · rfl
  · exact List.foldlRecOn _ _ (motive := fun (acc : ExpirationResult × SessionLifecycleManager T) =>
      acc.2.config = m.config) rfl fun acc kept state _ => kept

theorem config_expireIdleSessions (m : SessionLifecycleManager T) (protectedKeys : Finset OffloadKey)
    (protectedReqIds : Finset String) (clock : ℕ → T) :
    (m.expireIdleSessions protectedKeys protectedReqIds clock).2.config = m.config := by
  unfold expireIdleSessions expireIdleSessionsIn
  split
  · rfl
  · split
    · rfl
    · exact config_expireLoop ..

variable [Add T]

theorem config_onRequestFinished (m : SessionLifecycleManager T) (reqContext : ReqContext) (trackHeat : Bool)
    (clock : ℕ → T) : (m.onRequestFinished reqContext trackHeat clock).config = m.config := by
  have kept := config_getOrNew m reqContext trackHeat clock
  unfold onRequestFinished
  split
  · rfl
  · split
    · next found => rw [found] at kept; exact kept
    · next found =>
      rw [found] at kept
      dsimp only
      split <;> exact kept

theorem config_call (m : SessionLifecycleManager T) (call : LifecycleCall T) :
    (m.call call).config = m.config := by
  cases call with
  | onNewRequest => exact config_onNewRequest ..
  | recordReuseHit => exact config_recordReuseHit ..
  | recordRequestKeys => exact config_recordRequestKeys ..
  | onRequestFinished => exact config_onRequestFinished ..
  | onRequestFinalized => exact config_onRequestFinalized ..
  | expireIdleSessions => exact config_expireIdleSessions ..
  | pruneIdleSessions => exact config_pruneIdleSessions ..
  | residency => rfl

theorem config_after (config : LifecycleConfig T) (calls : List (LifecycleCall T)) :
    (after config calls).config = config :=
  after_induction (fun m => m.config = config) config rfl (fun m call kept => (config_call m call).trans kept) calls

end SessionLifecycleManager

end KVTiering.Soundness
