import KVTiering.Soundness.LifecycleSpec

/-! # What one call does to one session

A call keeps a session, removes it, creates it, or rewrites it in one of a few ways. Recording a reuse hit is
specified on its own. Nothing here needs an enabled manager: with heat tracking alone there are sessions too,
only the tracker does not follow them.
-/

namespace KVTiering.Soundness

open Model

namespace SessionLifecycleManager

open Model.SessionLifecycleManager BlockResidencyTracker

variable {T : Type}

/-- A request joins a session. -/
def join (state : SessionKVState T) (reqId : String) (now : T) : SessionKVState T :=
  { state with
    status := .active
    lastAccessAt := now
    ttlDeadline := none
    activeReqIds := insert reqId state.activeReqIds
    retainedReqIds := state.retainedReqIds.erase reqId
    requestCount := state.requestCount + 1 }

/-- A request leaves the active requests of a session. -/
def finish (state : SessionKVState T) (reqId : String) (now : T) : SessionKVState T :=
  { state with
    activeReqIds := state.activeReqIds.erase reqId
    retainedReqIds := insert reqId state.retainedReqIds
    lastAccessAt := now }

/-- How a session is rewritten, other than by a reuse hit. -/
inductive Update : SessionKVState T → SessionKVState T → Prop
  | join (state : SessionKVState T) (reqId : String) (now : T) : Update state (join state reqId now)
  | access (state : SessionKVState T) (keys : Finset OffloadKey) (now : T) :
      Update state { state with blockKeys := state.blockKeys ∪ keys, lastAccessAt := now }
  | finish (state : SessionKVState T) (reqId : String) (now : T)
      (busy : (finish state reqId now).activeReqIds ≠ ∅) : Update state (finish state reqId now)
  | rest (state : SessionKVState T) (reqId : String) (now : T) (ttlDeadline : Option T)
      (last : (finish state reqId now).activeReqIds = ∅) :
      Update state { finish state reqId now with status := .idleRetained, ttlDeadline := ttlDeadline }
  | finalize (state : SessionKVState T) (reqId : String) :
      Update state { state with retainedReqIds := state.retainedReqIds.erase reqId }

/-- What becomes of the session stored under an identifier; a session that is removed is not created again. -/
inductive Evolves (sessionId : String) : Option (SessionKVState T) → Option (SessionKVState T) → Prop
  | same (found : Option (SessionKVState T)) : Evolves sessionId found found
  | removed (found : Option (SessionKVState T)) : Evolves sessionId found none
  | created (hasStableId : Bool) (reqId : String) (now : T) :
      Evolves sessionId none (some (SessionLifecycleManager.join (.init sessionId hasStableId now) reqId now))
  | updated {found : Option (SessionKVState T)} {state state' : SessionKVState T} :
      Evolves sessionId found (some state) → Update state state' → Evolves sessionId found (some state')

theorem Update.sessionId {state state' : SessionKVState T} (update : Update state state') :
    state'.sessionId = state.sessionId := by cases update <;> rfl

/-- What new sessions satisfy, and every rewriting keeps, is kept by whatever becomes of a session. -/
theorem Evolves.invariant {sessionId : String} {found found' : Option (SessionKVState T)}
    (evolves : Evolves sessionId found found') {holds : SessionKVState T → Prop}
    (before : ∀ state, found = some state → holds state)
    (created : found = none → ∀ hasStableId reqId now,
      holds (SessionLifecycleManager.join (.init sessionId hasStableId now) reqId now))
    (updated : ∀ state state', Update state state' → holds state → holds state') :
    ∀ state, found' = some state → holds state := by
  induction evolves with
  | same => exact before
  | removed => exact fun _ absent => nomatch absent
  | created hasStableId reqId now =>
    intro state made
    obtain rfl := Option.some.inj made
    exact created rfl hasStableId reqId now
  | updated _ update ih =>
    intro state made
    obtain rfl := Option.some.inj made
    exact updated _ _ update (ih before created _ rfl)

/-- The request sets of a session agree with its status. -/
def StatusAgrees (state : SessionKVState T) : Prop :=
  state.status = .active ∧ state.activeReqIds ≠ ∅ ∨ state.status = .idleRetained ∧ state.activeReqIds = ∅

theorem Update.statusAgrees {state state' : SessionKVState T} (update : Update state state')
    (agrees : StatusAgrees state) : StatusAgrees state' := by
  cases update with
  | join => exact .inl ⟨rfl, Finset.insert_ne_empty _ _⟩
  | access => exact agrees
  | finish reqId now busy =>
    refine .inl ⟨?_, busy⟩
    rcases agrees with ⟨active, _⟩ | ⟨_, none⟩
    · exact active
    · simp [SessionLifecycleManager.finish, none] at busy
  | rest reqId now ttlDeadline last => exact .inr ⟨rfl, last⟩
  | finalize => exact agrees

variable [LinearOrder T] [Zero T] [One T] {m : SessionLifecycleManager T}

/-- The sessions of a manager have evolved from other sessions. -/
def EvolvesFrom (sessions : Dict String (SessionKVState T)) (m : SessionLifecycleManager T) : Prop :=
  ∀ sessionId, Evolves sessionId (sessions.get? sessionId) (m.sessions.get? sessionId)

namespace EvolvesFrom

variable {sessions : Dict String (SessionKVState T)}

theorem refl (m : SessionLifecycleManager T) : EvolvesFrom m.sessions m := fun _ => .same _

/-- One more rewriting of a session. -/
theorem put (evolves : EvolvesFrom sessions m) {state state' : SessionKVState T}
    (found : m.sessions.get? state.sessionId = some state) (update : Update state state') :
    EvolvesFrom sessions (m.put state') := by
  intro sessionId
  rw [Model.SessionLifecycleManager.put, Dict.get?_set, update.sessionId]
  split
  · next same =>
    have evolved := evolves sessionId
    rw [same, found] at evolved
    rw [same]
    exact evolved.updated update
  · exact evolves sessionId

/-- One more session is removed. -/
theorem remove (evolves : EvolvesFrom sessions m) (state : SessionKVState T) (now : T) :
    EvolvesFrom sessions (m.remove state now).2 := by
  intro sessionId
  change Evolves sessionId _ ((m.sessions.erase state.sessionId).get? sessionId)
  rw [Dict.get?_erase]
  split
  · exact .removed _
  · exact evolves sessionId

end EvolvesFrom

theorem evolves_onNewRequest (stored : Stored m.sessions) (reqContext : ReqContext) (trackHeat : Bool)
    (clock : ℕ → T) : EvolvesFrom m.sessions (m.onNewRequest reqContext trackHeat clock).2 := by
  by_cases on : m.enabled = true ∨ trackHeat = true
  · obtain ⟨_, sessions, _⟩ := onNewRequest_spec stored reqContext trackHeat clock on
    intro sessionId
    rw [sessions]
    split
    · next same =>
      rw [same]
      unfold admitted
      cases m.sessions.get? (getSessionId reqContext) with
      | none => exact .created (hasStableSessionId reqContext) reqContext.reqId (clock 0)
      | some state => exact .updated (.same _) (.join state reqContext.reqId (clock 0))
    · exact .same _
  · have off : ¬ m.enabled = true ∧ ¬ trackHeat = true := by tauto
    rw [onNewRequest, if_pos off]
    exact .refl m

/-- The session that `getOrNew` returns, and the manager it is stored in. -/
theorem evolves_getOrNew (stored : Stored m.sessions) (reqContext : ReqContext) (trackHeat : Bool)
    (clock : ℕ → T) (on : m.enabled = true ∨ trackHeat = true) :
    ∃ state m', m.getOrNew reqContext trackHeat clock = (some state, m') ∧
      m'.sessions.get? state.sessionId = some state ∧ EvolvesFrom m.sessions m' := by
  obtain ⟨state, found, known, same | same⟩ := getOrNew_spec stored reqContext trackHeat clock on
  · exact ⟨state, m, Prod.ext found same, same ▸ known, .refl m⟩
  · rw [same] at known
    exact ⟨state, _, Prod.ext found same, known, evolves_onNewRequest stored reqContext trackHeat clock⟩

theorem evolves_recordRequestKeys (stored : Stored m.sessions) (reqContext : ReqContext)
    (keys : List OffloadKey) (clock : ℕ → T) :
    EvolvesFrom m.sessions (m.recordRequestKeys reqContext keys clock) := by
  unfold recordRequestKeys
  split
  · exact .refl m
  · next on =>
    obtain ⟨state, m', got, known, evolves⟩ :=
      evolves_getOrNew stored reqContext false clock (.inl (not_not.mp on))
    rw [got]
    exact evolves.put known (.access state keys.toFinset (clock 2))

theorem evolves_onRequestFinalized (stored : Stored m.sessions) (reqContext : ReqContext) (clock : ℕ → T) :
    EvolvesFrom m.sessions (m.onRequestFinalized reqContext clock) := by
  unfold onRequestFinalized
  cases found : m.getByReq reqContext with
  | none => exact .refl m
  | some state =>
    let m' : SessionLifecycleManager T := { m with reqToSession := m.reqToSession.erase reqContext.reqId }
    let state' := { state with retainedReqIds := state.retainedReqIds.erase reqContext.reqId }
    have known : m.sessions.get? state.sessionId = some state := get?_of_getByReq stored found
    have finalized : EvolvesFrom m.sessions (m'.put state') :=
      EvolvesFrom.put (m := m') (EvolvesFrom.refl m) known (.finalize state reqContext.reqId)
    have removed := finalized.remove state' (clock 0)
    dsimp only
    split
    · exact finalized
    · split
      · exact finalized
      · exact removed

theorem evolves_expireIdleSessions (m : SessionLifecycleManager T) (protectedKeys : Finset OffloadKey)
    (protectedReqIds : Finset String) (clock : ℕ → T) :
    EvolvesFrom m.sessions (m.expireIdleSessions protectedKeys protectedReqIds clock).2 := by
  unfold expireIdleSessions expireIdleSessionsIn
  split
  · exact .refl m
  · split
    · exact .refl m
    · refine List.foldlRecOn m.sessions.values _ (motive := fun (acc : ExpirationResult × SessionLifecycleManager T) =>
        EvolvesFrom m.sessions acc.2) (.refl m) fun acc evolves state _ => ?_
      unfold expireOne
      split
      · exact evolves.remove state _
      · exact evolves

theorem evolves_pruneIdleSessions (m : SessionLifecycleManager T) (clock : ℕ → T) :
    EvolvesFrom m.sessions (m.pruneIdleSessions clock).2 := by
  simp only [pruneIdleSessions, pruneIdleSessionsIn]
  split
  · exact .refl m
  · exact List.foldlRecOn _ _ (motive := fun (acc : ExpirationResult × SessionLifecycleManager T) =>
      EvolvesFrom m.sessions acc.2) (.refl m) fun acc evolves state _ => evolves.remove state _

theorem evolves_onRequestFinished [Add T] (stored : Stored m.sessions) (reqContext : ReqContext) (trackHeat : Bool)
    (clock : ℕ → T) : EvolvesFrom m.sessions (m.onRequestFinished reqContext trackHeat clock) := by
  unfold onRequestFinished
  split
  · exact .refl m
  · next on =>
    obtain ⟨state, m', got, known, evolves⟩ := evolves_getOrNew stored reqContext trackHeat clock (by tauto)
    rw [got]
    dsimp only
    split
    · next busy => exact evolves.put known (.finish state reqContext.reqId (clock 2) busy)
    · next last => exact evolves.put known (.rest state reqContext.reqId (clock 2) _ (not_not.mp last))

/-- Every call but the recording of a hit. -/
theorem evolves_call [Add T] (stored : Stored m.sessions) (call : LifecycleCall T)
    (noHit : ∀ reqContext numBlocks clock, call ≠ .recordReuseHit reqContext numBlocks clock) :
    EvolvesFrom m.sessions (m.call call) := by
  cases call with
  | onNewRequest reqContext trackHeat clock => exact evolves_onNewRequest stored reqContext trackHeat clock
  | recordReuseHit reqContext numBlocks clock => exact absurd rfl (noHit reqContext numBlocks clock)
  | recordRequestKeys reqContext keys clock => exact evolves_recordRequestKeys stored reqContext keys clock
  | onRequestFinished reqContext trackHeat clock => exact evolves_onRequestFinished stored reqContext trackHeat clock
  | onRequestFinalized reqContext clock => exact evolves_onRequestFinalized stored reqContext clock
  | expireIdleSessions protectedKeys protectedReqIds clock =>
    exact evolves_expireIdleSessions m protectedKeys protectedReqIds clock
  | pruneIdleSessions clock => exact evolves_pruneIdleSessions m clock
  | residency => exact .refl m

/-- `record_reuse_hit`, on the session that it finds. -/
def reuseHit (state : SessionKVState T) (reqId : String) (numBlocks : ℤ) (now : T) : SessionKVState T :=
  { state with
    reuseRequestCount := state.reuseRequestCount + if state.lastReuseReqId ≠ some reqId then 1 else 0
    lastReuseReqId := some reqId
    reuseHitBlocks := state.reuseHitBlocks + numBlocks.toNat
    lastReuseAt := some now
    lastAccessAt := now }

theorem recordReuseHit_spec (stored : Stored m.sessions) (reqContext : ReqContext) (numBlocks : ℤ)
    (clock : ℕ → T) (sessionId : String) :
    (m.recordReuseHit reqContext numBlocks clock).sessions.get? sessionId =
      if (m.getByReq reqContext).map (fun state => state.sessionId) = some sessionId then
        (m.sessions.get? sessionId).map fun state => reuseHit state reqContext.reqId numBlocks (clock 0)
      else m.sessions.get? sessionId := by
  unfold recordReuseHit
  cases found : m.getByReq reqContext with
  | none => simp
  | some state =>
    have known := get?_of_getByReq stored found
    have rewritten : (if state.lastReuseReqId ≠ some reqContext.reqId then
        { state with
          reuseRequestCount := state.reuseRequestCount + 1
          lastReuseReqId := some reqContext.reqId }
        else state) = { state with
          reuseRequestCount := state.reuseRequestCount +
            if state.lastReuseReqId ≠ some reqContext.reqId then 1 else 0
          lastReuseReqId := some reqContext.reqId } := by
      split
      · rfl
      · next repeated => rw [← not_not.mp repeated, Nat.add_zero]
    dsimp only
    rw [rewritten, put, Dict.get?_set]
    simp only [Option.map_some, Option.some.injEq, eq_comm (a := sessionId)]
    split
    · next same =>
      rw [← same, known]
      rfl
    · rfl

/-! ## The tracker -/

section Tracker

variable {holds : BlockResidencyTracker T → Prop}

theorem residency_onNewRequest (kept : Invariant holds) (before : holds m.residency) (reqContext : ReqContext)
    (trackHeat : Bool) (clock : ℕ → T) : holds (m.onNewRequest reqContext trackHeat clock).2.residency := by
  unfold onNewRequest
  dsimp only
  split
  · exact before
  · unfold admitRequest
    cases m.sessions.get? (getSessionId reqContext) <;>
      · dsimp only
        split
        · exact kept.active _ _ _ before
        · exact before

theorem residency_getOrNew (kept : Invariant holds) (before : holds m.residency) (reqContext : ReqContext)
    (trackHeat : Bool) (clock : ℕ → T) : holds (m.getOrNew reqContext trackHeat clock).2.residency := by
  unfold getOrNew
  cases m.getByReq reqContext with
  | some state => exact before
  | none => exact residency_onNewRequest kept before reqContext trackHeat clock

theorem residency_onRequestFinalized (kept : Invariant holds) (before : holds m.residency) (reqContext : ReqContext)
    (clock : ℕ → T) : holds (m.onRequestFinalized reqContext clock).residency := by
  unfold onRequestFinalized
  cases m.getByReq reqContext with
  | none => exact before
  | some state =>
    dsimp only
    split
    · exact before
    · split
      · exact before
      · exact kept.release _ _ _ before

theorem residency_expireIdleSessions (kept : Invariant holds) (before : holds m.residency)
    (protectedKeys : Finset OffloadKey) (protectedReqIds : Finset String) (clock : ℕ → T) :
    holds (m.expireIdleSessions protectedKeys protectedReqIds clock).2.residency := by
  unfold expireIdleSessions expireIdleSessionsIn
  split
  · exact before
  · split
    · exact before
    · refine List.foldlRecOn m.sessions.values _ (motive := fun (acc : ExpirationResult × SessionLifecycleManager T) =>
        holds acc.2.residency) before fun acc held state _ => ?_
      unfold expireOne
      split
      · exact kept.release _ _ _ held
      · exact held

theorem residency_pruneIdleSessions (kept : Invariant holds) (before : holds m.residency) (clock : ℕ → T) :
    holds (m.pruneIdleSessions clock).2.residency := by
  simp only [pruneIdleSessions, pruneIdleSessionsIn]
  split
  · exact before
  · exact List.foldlRecOn _ _ (motive := fun (acc : ExpirationResult × SessionLifecycleManager T) =>
      holds acc.2.residency) before fun acc held state _ => kept.release _ _ _ held

theorem residency_onRequestFinished [Add T] (kept : Invariant holds) (before : holds m.residency)
    (reqContext : ReqContext) (trackHeat : Bool) (clock : ℕ → T) :
    holds (m.onRequestFinished reqContext trackHeat clock).residency := by
  have got := residency_getOrNew kept before reqContext trackHeat clock
  unfold onRequestFinished
  split
  · exact before
  · split
    · next found =>
      rw [found] at got
      exact got
    · next state m' found =>
      rw [found] at got
      dsimp only
      split
      · exact got
      · change holds (if m'.enabled then m'.residency.onSessionIdle state.sessionId (clock 3) else m'.residency)
        split
        · exact kept.idle _ _ _ got
        · exact got

/-- Every call keeps it; recording keys is left to be shown. -/
theorem residency_call [Add T] (kept : Invariant holds) (call : LifecycleCall T)
    (access : ∀ reqContext keys clock, call = .recordRequestKeys reqContext keys clock →
      holds (m.recordRequestKeys reqContext keys clock).residency)
    (before : holds m.residency) : holds (m.call call).residency := by
  cases call with
  | onNewRequest reqContext trackHeat clock => exact residency_onNewRequest kept before reqContext trackHeat clock
  | recordReuseHit reqContext numBlocks clock =>
    change holds (m.recordReuseHit reqContext numBlocks clock).residency
    unfold recordReuseHit
    cases m.getByReq reqContext <;> exact before
  | recordRequestKeys reqContext keys clock => exact access reqContext keys clock rfl
  | onRequestFinished reqContext trackHeat clock =>
    exact residency_onRequestFinished kept before reqContext trackHeat clock
  | onRequestFinalized reqContext clock => exact residency_onRequestFinalized kept before reqContext clock
  | expireIdleSessions protectedKeys protectedReqIds clock =>
    exact residency_expireIdleSessions kept before protectedKeys protectedReqIds clock
  | pruneIdleSessions clock => exact residency_pruneIdleSessions kept before clock
  | residency call => exact kept.call _ _ before

end Tracker

/-! ## Consistency, enabled or not -/

/-- What holds of every manager, whatever its configuration. -/
structure Consistent (m : SessionLifecycleManager T) : Prop where
  stored : Stored m.sessions
  status : ∀ sessionId state, m.sessions.get? sessionId = some state → StatusAgrees state
  indexed : Indexed m.residency

theorem indexed_recordRequestKeys (consistent : Consistent m) (reqContext : ReqContext) (keys : List OffloadKey)
    (clock : ℕ → T) : Indexed (m.recordRequestKeys reqContext keys clock).residency := by
  have got := residency_getOrNew invariant_indexed consistent.indexed reqContext false clock
  unfold recordRequestKeys
  split
  · exact consistent.indexed
  · split
    · next found =>
      rw [found] at got
      exact got
    · next found =>
      rw [found] at got
      exact (recordAccess_spec got _ _ _).1

theorem consistent_call [Add T] (consistent : Consistent m) (call : LifecycleCall T) : Consistent (m.call call) := by
  have indexed : Indexed (m.call call).residency :=
    residency_call invariant_indexed call
      (fun reqContext keys clock _ => indexed_recordRequestKeys consistent reqContext keys clock)
      consistent.indexed
  by_cases hit : ∃ reqContext numBlocks clock, call = .recordReuseHit reqContext numBlocks clock
  · obtain ⟨reqContext, numBlocks, clock, rfl⟩ := hit
    have kept : ∀ sessionId state,
        (m.recordReuseHit reqContext numBlocks clock).sessions.get? sessionId = some state →
        ∃ old, m.sessions.get? sessionId = some old ∧ state.sessionId = old.sessionId ∧
          state.status = old.status ∧ state.activeReqIds = old.activeReqIds := by
      intro sessionId state found
      rw [recordReuseHit_spec consistent.stored] at found
      split at found
      · obtain ⟨old, known, rfl⟩ := Option.map_eq_some_iff.mp found
        exact ⟨old, known, rfl, rfl, rfl⟩
      · exact ⟨state, found, rfl, rfl, rfl⟩
    refine ⟨fun sessionId state found => ?_, fun sessionId state found => ?_, indexed⟩
    · obtain ⟨old, known, same, _⟩ := kept sessionId state found
      rw [same, consistent.stored sessionId old known]
    · obtain ⟨old, known, _, status, activeReqIds⟩ := kept sessionId state found
      rw [StatusAgrees, status, activeReqIds]
      exact consistent.status sessionId old known
  · have evolves := evolves_call consistent.stored call fun reqContext numBlocks clock same =>
      hit ⟨reqContext, numBlocks, clock, same⟩
    refine ⟨fun sessionId => ?_, fun sessionId => ?_, indexed⟩
    · apply (evolves sessionId).invariant (consistent.stored sessionId) (fun _ _ _ _ => rfl)
      exact fun _ _ update same => update.sessionId.trans same
    · apply (evolves sessionId).invariant (consistent.status sessionId)
      · exact fun _ _ _ _ => .inl ⟨rfl, Finset.insert_ne_empty _ _⟩
      · exact fun _ _ update agrees => update.statusAgrees agrees

theorem consistent_after [Add T] (config : LifecycleConfig T) (calls : List (LifecycleCall T)) :
    Consistent (after config calls) := by
  refine after_induction Consistent config ⟨?_, ?_, ?_⟩ (fun _ call consistent => consistent_call consistent call) calls
  · exact fun _ _ absent => nomatch absent
  · exact fun _ _ absent => nomatch absent
  · exact indexed_init _ _

end SessionLifecycleManager

end KVTiering.Soundness
