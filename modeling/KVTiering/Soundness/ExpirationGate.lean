import KVTiering.Soundness.LifecycleSpec

/-! # The expiration gate

`_next_expiration_at` is refreshed by some of the methods only. Whatever the others leave in it is early
rather than late: in every reachable state it is set and not after the deadline of any idle session. Taking
the early return of `expire_idle_sessions` therefore never skips a session that is due.
-/

namespace KVTiering.Soundness

open Model

namespace SessionLifecycleManager

open Model.SessionLifecycleManager

variable {T : Type} [LinearOrder T]

theorem earlier_previous {ttlDeadline next : Option T} {previous : T} (known : next = some previous) :
    ∃ n, earlier ttlDeadline next = some n ∧ n ≤ previous := by
  subst known
  cases ttlDeadline with
  | none => exact ⟨previous, rfl, le_rfl⟩
  | some deadline =>
    by_cases sooner : deadline < previous
    · exact ⟨deadline, if_pos sooner, sooner.le⟩
    · exact ⟨previous, if_neg sooner, le_rfl⟩

theorem earlier_own {ttlDeadline next : Option T} {deadline : T} (timed : ttlDeadline = some deadline) :
    ∃ n, earlier ttlDeadline next = some n ∧ n ≤ deadline := by
  subst timed
  cases next with
  | none => exact ⟨deadline, rfl, le_rfl⟩
  | some previous =>
    by_cases sooner : deadline < previous
    · exact ⟨deadline, if_pos sooner, le_rfl⟩
    · exact ⟨previous, if_neg sooner, not_lt.mp sooner⟩

variable [Zero T] [One T]

/-- The gate opens no later than the deadline of any idle session, and there are deadlines only if there is
a time to live. -/
structure Gated (m : SessionLifecycleManager T) : Prop where
  stored : Stored m.sessions
  timed : ∀ sessionId state deadline, m.sessions.get? sessionId = some state →
    state.ttlDeadline = some deadline → 0 < m.config.idleTtlSec
  due : ∀ sessionId state deadline, m.sessions.get? sessionId = some state → state.isIdle = true →
    state.ttlDeadline = some deadline → ∃ next, m.nextExpirationAt = some next ∧ next ≤ deadline

theorem gated_init (config : LifecycleConfig T) : Gated (init config) where
  stored _ _ found := by cases found
  timed _ _ _ found := by cases found
  due _ _ _ found := by cases found

/-- A refreshed gate opens no later than any deadline of an idle session. -/
theorem due_refresh {m : SessionLifecycleManager T} {sessionId : String} {state : SessionKVState T}
    {deadline : T} (found : m.sessions.get? sessionId = some state) (idle : state.isIdle = true)
    (timed : state.ttlDeadline = some deadline) (on : 0 < m.config.idleTtlSec) :
    ∃ next, m.refreshNextExpiration.nextExpirationAt = some next ∧ next ≤ deadline := by
  have member : deadline ∈ m.deadlines := by
    refine List.mem_filterMap.mpr ⟨state, Dict.mem_values_iff.mpr ⟨sessionId, found⟩, ?_⟩
    rw [if_pos idle, timed]
  obtain ⟨next, least⟩ := Option.isSome_iff_exists.mp (List.isSome_min?_of_mem member)
  refine ⟨next, ?_, (List.min?_eq_some_iff.mp least).2 deadline member⟩
  rw [refreshNextExpiration, if_neg (not_le.mpr on), least]

namespace Gated

variable {m m' : SessionLifecycleManager T}

/-- A step that leaves the gate alone and gives no session a new deadline. -/
theorem keep (gated : Gated m) (config : m'.config = m.config)
    (next : m'.nextExpirationAt = m.nextExpirationAt) (stored : Stored m'.sessions)
    (old : ∀ sessionId state deadline, m'.sessions.get? sessionId = some state →
      state.ttlDeadline = some deadline → ∃ sessionId' state', m.sessions.get? sessionId' = some state' ∧
        state'.ttlDeadline = some deadline ∧ (state.isIdle = true → state'.isIdle = true)) : Gated m' where
  stored := stored
  timed sessionId state deadline found timed := by
    obtain ⟨_, state', found', timed', _⟩ := old sessionId state deadline found timed
    rw [config]
    exact gated.timed _ state' deadline found' timed'
  due sessionId state deadline found idle timed := by
    obtain ⟨_, state', found', timed', idle'⟩ := old sessionId state deadline found timed
    rw [next]
    exact gated.due _ state' deadline found' (idle' idle) timed'

/-- A session is rewritten and keeps its status and its deadline. -/
theorem put (gated : Gated m) {old state : SessionKVState T} (found : m.sessions.get? old.sessionId = some old)
    (status : state.status = old.status) (ttlDeadline : state.ttlDeadline = old.ttlDeadline) :
    Gated (m.put state) := by
  refine gated.keep rfl rfl (gated.stored.set state) fun sessionId known deadline known' timed => ?_
  rw [Model.SessionLifecycleManager.put, Dict.get?_set] at known'
  split at known'
  · obtain rfl := Option.some.inj known'
    exact ⟨_, old, found, by rw [← ttlDeadline, timed], by simp [SessionKVState.isIdle, status]⟩
  · exact ⟨sessionId, known, known', timed, id⟩

theorem remove (gated : Gated m) (state : SessionKVState T) (now : T) : Gated (m.remove state now).2 := by
  refine gated.keep rfl rfl (gated.stored.erase state.sessionId) fun sessionId known deadline found timed => ?_
  change (m.sessions.erase state.sessionId).get? sessionId = some known at found
  rw [Dict.get?_erase] at found
  split at found
  · cases found
  · exact ⟨sessionId, known, found, timed, id⟩

theorem onNewRequest (gated : Gated m) (reqContext : ReqContext) (trackHeat : Bool) (clock : ℕ → T) :
    Gated (m.onNewRequest reqContext trackHeat clock).2 := by
  by_cases on : m.enabled = true ∨ trackHeat = true
  · obtain ⟨config, sessions, _, _, next⟩ := onNewRequest_spec gated.stored reqContext trackHeat clock on
    obtain ⟨_, status, _, noDeadline, _⟩ := admitted_fields m reqContext (clock 0) gated.stored
    -- the session of the request has no deadline, every other session is as it was
    have other : ∀ sessionId state deadline,
        (m.onNewRequest reqContext trackHeat clock).2.sessions.get? sessionId = some state →
        state.ttlDeadline = some deadline →
        sessionId ≠ getSessionId reqContext ∧ m.sessions.get? sessionId = some state := by
      intro sessionId state deadline found timed
      rw [sessions] at found
      split at found
      · obtain rfl := Option.some.inj found
        rw [noDeadline] at timed
        cases timed
      · next differ => exact ⟨differ, found⟩
    refine ⟨gated.stored.onNewRequest reqContext trackHeat clock, fun sessionId state deadline found timed => ?_,
      fun sessionId state deadline found idle timed => ?_⟩
    · rw [config]
      exact gated.timed sessionId state deadline (other sessionId state deadline found timed).2 timed
    · obtain ⟨differ, known⟩ := other sessionId state deadline found timed
      rcases next with same | ⟨active, sameId, _, refreshed⟩
      · rw [same]
        exact gated.due sessionId state deadline known idle timed
      · rw [refreshed]
        have found' : (m.put active).sessions.get? sessionId = some state := by
          rw [Model.SessionLifecycleManager.put, Dict.get?_set, if_neg (sameId ▸ differ), known]
        exact due_refresh found' idle timed (gated.timed sessionId state deadline known timed)
  · have off : ¬ m.enabled = true ∧ ¬ trackHeat = true := by tauto
    simpa only [Model.SessionLifecycleManager.onNewRequest, if_pos off] using gated

theorem getOrNew (gated : Gated m) (reqContext : ReqContext) (trackHeat : Bool) (clock : ℕ → T)
    (on : m.enabled = true ∨ trackHeat = true) :
    ∃ state m', m.getOrNew reqContext trackHeat clock = (some state, m') ∧
      m'.sessions.get? state.sessionId = some state ∧ Gated m' := by
  obtain ⟨state, found, known, same | same⟩ := getOrNew_spec gated.stored reqContext trackHeat clock on
  · exact ⟨state, m, Prod.ext found same, same ▸ known, gated⟩
  · rw [same] at known
    exact ⟨state, _, Prod.ext found same, known, gated.onNewRequest reqContext trackHeat clock⟩

theorem recordReuseHit (gated : Gated m) (reqContext : ReqContext) (numBlocks : ℤ) (clock : ℕ → T) :
    Gated (m.recordReuseHit reqContext numBlocks clock) := by
  unfold Model.SessionLifecycleManager.recordReuseHit
  cases found : m.getByReq reqContext with
  | none => exact gated
  | some state =>
    have known := get?_of_getByReq gated.stored found
    dsimp only
    split <;> exact gated.put known rfl rfl

theorem recordRequestKeys (gated : Gated m) (reqContext : ReqContext) (keys : List OffloadKey)
    (clock : ℕ → T) : Gated (m.recordRequestKeys reqContext keys clock) := by
  unfold Model.SessionLifecycleManager.recordRequestKeys
  split
  · exact gated
  · next on =>
    obtain ⟨state, m', found, known, gated'⟩ := gated.getOrNew reqContext false clock (.inl (not_not.mp on))
    rw [found]
    have updated : Gated (m'.put { state with
        blockKeys := state.blockKeys ∪ keys.toFinset
        lastAccessAt := clock 2 }) := gated'.put known rfl rfl
    exact ⟨updated.stored, updated.timed, updated.due⟩

theorem onRequestFinalized (gated : Gated m) (reqContext : ReqContext) (clock : ℕ → T) :
    Gated (m.onRequestFinalized reqContext clock) := by
  unfold Model.SessionLifecycleManager.onRequestFinalized
  have unmapped : Gated { m with reqToSession := m.reqToSession.erase reqContext.reqId } :=
    ⟨gated.stored, gated.timed, gated.due⟩
  cases found : m.getByReq reqContext with
  | none => exact unmapped
  | some state =>
    have known := get?_of_getByReq gated.stored found
    have updated : Gated (Model.SessionLifecycleManager.put
        { m with reqToSession := m.reqToSession.erase reqContext.reqId }
        { state with retainedReqIds := state.retainedReqIds.erase reqContext.reqId }) :=
      unmapped.put known rfl rfl
    dsimp only
    split
    · exact updated
    · split
      · exact updated
      · exact updated.remove _ (clock 0)

theorem expireLoop (gated : Gated m) (now : T) (protectedKeys : Finset OffloadKey)
    (protectedReqIds : Finset String) (clock : ℕ → T) (order : List (SessionKVState T)) :
    Gated (expireLoop now protectedKeys protectedReqIds clock order m).2 := by
  refine List.foldlRecOn order _ (motive := fun (acc : ExpirationResult × SessionLifecycleManager T) =>
    Gated acc.2) gated fun acc kept state _ => ?_
  unfold expireOne
  split
  · exact kept.remove state _
  · exact kept

theorem pruneIdleSessions (gated : Gated m) (clock : ℕ → T) : Gated (m.pruneIdleSessions clock).2 := by
  simp only [Model.SessionLifecycleManager.pruneIdleSessions, pruneIdleSessionsIn]
  split
  · exact gated
  · exact List.foldlRecOn _ _ (motive := fun (acc : ExpirationResult × SessionLifecycleManager T) =>
      Gated acc.2) gated fun acc kept state _ => kept.remove state _

theorem refresh (gated : Gated m) : Gated m.refreshNextExpiration where
  stored := gated.stored
  timed := gated.timed
  due sessionId state deadline found idle timed :=
    due_refresh found idle timed (gated.timed sessionId state deadline found timed)

theorem expireIdleSessions (gated : Gated m) (protectedKeys : Finset OffloadKey)
    (protectedReqIds : Finset String) (clock : ℕ → T) :
    Gated (m.expireIdleSessions protectedKeys protectedReqIds clock).2 := by
  simp only [Model.SessionLifecycleManager.expireIdleSessions, expireIdleSessionsIn]
  split
  · exact gated
  · split
    · exact gated
    · exact (gated.expireLoop _ _ _ _ _).refresh

/-- A session turns idle: the gate is no later than before, and no later than the new deadline. -/
theorem idle (gated : Gated m) {state : SessionKVState T} {next : Option T}
    (timed : ∀ deadline, state.ttlDeadline = some deadline → 0 < m.config.idleTtlSec)
    (early : ∀ previous, m.nextExpirationAt = some previous → ∃ n, next = some n ∧ n ≤ previous)
    (own : ∀ deadline, state.ttlDeadline = some deadline → ∃ n, next = some n ∧ n ≤ deadline) :
    Gated { m.put state with nextExpirationAt := next } where
  stored := gated.stored.set state
  timed sessionId known deadline found known' := by
    simp only [Model.SessionLifecycleManager.put, Dict.get?_set] at found
    split at found
    · obtain rfl := Option.some.inj found
      exact timed deadline known'
    · exact gated.timed sessionId known deadline found known'
  due sessionId known deadline found isIdle known' := by
    simp only [Model.SessionLifecycleManager.put, Dict.get?_set] at found
    split at found
    · obtain rfl := Option.some.inj found
      exact own deadline known'
    · obtain ⟨previous, before, bound⟩ := gated.due sessionId known deadline found isIdle known'
      obtain ⟨n, same, sooner⟩ := early previous before
      exact ⟨n, same, sooner.trans bound⟩

variable [Add T]

theorem onRequestFinished (gated : Gated m) (reqContext : ReqContext) (trackHeat : Bool) (clock : ℕ → T) :
    Gated (m.onRequestFinished reqContext trackHeat clock) := by
  unfold Model.SessionLifecycleManager.onRequestFinished
  split
  · exact gated
  · next on =>
    obtain ⟨state, m', found, known, gated'⟩ := gated.getOrNew reqContext trackHeat clock (by tauto)
    rw [found]
    dsimp only
    split
    · exact gated'.put known rfl rfl
    · have idled : Gated { m'.put { state with
            activeReqIds := state.activeReqIds.erase reqContext.reqId
            retainedReqIds := insert reqContext.reqId state.retainedReqIds
            lastAccessAt := clock 2
            status := .idleRetained
            ttlDeadline := if 0 < m'.config.idleTtlSec then some (clock 2 + m'.config.idleTtlSec) else none } with
          nextExpirationAt := earlier
            (if 0 < m'.config.idleTtlSec then some (clock 2 + m'.config.idleTtlSec) else none)
            m'.nextExpirationAt } := by
        refine gated'.idle (fun deadline timed => ?_) (fun previous known => earlier_previous known)
          fun deadline timed => earlier_own timed
        by_contra off
        simp [off] at timed
      exact ⟨idled.stored, idled.timed, idled.due⟩

end Gated

/-- `expire_idle_sessions` without its early return. -/
def expireUngated (m : SessionLifecycleManager T) (protectedKeys : Finset OffloadKey)
    (protectedReqIds : Finset String) (clock : ℕ → T) : ExpirationResult × SessionLifecycleManager T :=
  if ¬ m.enabled ∨ m.config.idleTtlSec ≤ 0 then (.none, m)
  else m.expireDue protectedKeys protectedReqIds clock m.sessions.values

/-- Behind a closed gate no session is due. -/
theorem not_expires_of_notDue {m : SessionLifecycleManager T} (gated : Gated m) {now : T}
    (closed : m.notDue now = true) {protectedKeys : Finset OffloadKey} {protectedReqIds : Finset String}
    {sessionId : String} {state : SessionKVState T} (found : m.sessions.get? sessionId = some state) :
    expires now protectedKeys protectedReqIds state = false := by
  cases timed : state.ttlDeadline with
  | none => simp [expires, timed]
  | some deadline =>
    by_contra due
    simp only [expires, timed, Option.any_some, Bool.not_eq_false, Bool.and_eq_true, decide_eq_true_eq] at due
    obtain ⟨⟨⟨idle, passed⟩, _⟩, _⟩ := due
    obtain ⟨next, opens, sooner⟩ := gated.due sessionId state deadline found idle timed
    rw [notDue, opens, Option.all_some, decide_eq_true_eq] at closed
    exact absurd (closed.trans_le (sooner.trans passed)) (lt_irrefl now)

theorem expireLoop_of_notDue {m : SessionLifecycleManager T} (gated : Gated m) (now : T)
    (closed : m.notDue now = true) (protectedKeys : Finset OffloadKey) (protectedReqIds : Finset String)
    (clock : ℕ → T) {order : List (SessionKVState T)} (listed : ∀ state ∈ order, state ∈ m.sessions.values) :
    expireLoop now protectedKeys protectedReqIds clock order m = (.none, m) := by
  refine List.foldlRecOn order _ (motive := fun (acc : ExpirationResult × SessionLifecycleManager T) =>
    acc = (.none, m)) rfl fun acc same state member => ?_
  obtain ⟨sessionId, found⟩ := Dict.mem_values_iff.mp (listed state member)
  rw [expireOne, not_expires_of_notDue gated closed found, same]
  rfl

variable [Add T]

theorem gated_call {m : SessionLifecycleManager T} (gated : Gated m) (call : LifecycleCall T) :
    Gated (m.call call) := by
  cases call with
  | onNewRequest => exact gated.onNewRequest ..
  | recordReuseHit => exact gated.recordReuseHit ..
  | recordRequestKeys => exact gated.recordRequestKeys ..
  | onRequestFinished => exact gated.onRequestFinished ..
  | onRequestFinalized => exact gated.onRequestFinalized ..
  | expireIdleSessions => exact gated.expireIdleSessions ..
  | pruneIdleSessions => exact gated.pruneIdleSessions ..
  | residency => exact ⟨gated.stored, gated.timed, gated.due⟩

theorem gated_after (config : LifecycleConfig T) (calls : List (LifecycleCall T)) :
    Gated (after config calls) :=
  after_induction Gated config (gated_init config) (fun _ call gated => gated_call gated call) calls

/-- The gate is exact in effect: whatever calls were made and whatever the clock read, it is set and not after
the deadline of any idle session, and so the early return changes neither the result nor the sessions, the
request map and the residency. -/
theorem expiration_gate (config : LifecycleConfig T) (calls : List (LifecycleCall T)) :
    let m := after config calls
    (∀ sessionId state deadline, m.sessions.get? sessionId = some state → state.status = .idleRetained →
      state.ttlDeadline = some deadline → ∃ next, m.nextExpirationAt = some next ∧ next ≤ deadline) ∧
      ∀ protectedKeys protectedReqIds clock,
        let gated := m.expireIdleSessions protectedKeys protectedReqIds clock
        let ungated := expireUngated m protectedKeys protectedReqIds clock
        gated.1 = ungated.1 ∧ gated.2.sessions = ungated.2.sessions ∧
          gated.2.reqToSession = ungated.2.reqToSession ∧ gated.2.residency = ungated.2.residency := by
  intro m
  have gated : Gated m := gated_after config calls
  refine ⟨fun sessionId state deadline found idle timed => ?_, fun protectedKeys protectedReqIds clock => ?_⟩
  · exact gated.due sessionId state deadline found (by simp [SessionKVState.isIdle, idle]) timed
  · simp only [expireIdleSessions, expireIdleSessionsIn, expireUngated]
    split
    · exact ⟨rfl, rfl, rfl, rfl⟩
    · split
      · next closed =>
        have idle := expireLoop_of_notDue gated (clock 0) closed protectedKeys protectedReqIds clock
          fun state member => member
        rw [expireDue, idle]
        exact ⟨rfl, rfl, rfl, rfl⟩
      · exact ⟨rfl, rfl, rfl, rfl⟩

end SessionLifecycleManager

end KVTiering.Soundness
