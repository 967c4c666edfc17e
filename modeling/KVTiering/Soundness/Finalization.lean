import KVTiering.Machine.Run
import KVTiering.Soundness.LifecycleCoherence

/-! # Finalized requests

A request goes through its calls once: it begins, records keys, finishes, may record further keys, and is
finalized. Its session holds it as active while it runs and as retained afterwards, unless the session
expires in between. Keys recorded after that make a new session in which the request is active again, and
its finalization does not take it out of there; as long as this does not happen, nothing is left of a
request that has been finalized.
-/

namespace KVTiering.Soundness

open Model

/-- How far the calls of a request have come; `outside` is before the first of them and after the last. -/
inductive Stage where
  | outside
  | running
  | finished
deriving DecidableEq, Repr

namespace SessionLifecycleManager

open Model.SessionLifecycleManager BlockResidencyTracker

variable {T : Type}

/-- The request that a call is made for. -/
def requestOf : LifecycleCall T → Option ReqContext
  | .onNewRequest reqContext .. | .recordReuseHit reqContext .. | .recordRequestKeys reqContext .. => some reqContext
  | .onRequestFinished reqContext .. | .onRequestFinalized reqContext .. => some reqContext
  | .expireIdleSessions .. | .pruneIdleSessions .. | .residency .. => none

/-- The stage of a request after one of its calls, if the call is in order. -/
def nextStage : Stage → LifecycleCall T → Option Stage
  | .outside, .onNewRequest .. => some .running
  | .running, .recordRequestKeys .. => some .running
  | .running, .onRequestFinished .. => some .finished
  | .finished, .recordRequestKeys .. => some .finished
  | .finished, .onRequestFinalized .. => some .outside
  | stage, .recordReuseHit .. => some stage
  | _, _ => none

variable [LinearOrder T] [Zero T] [One T]

/-- The manager, and the stage of each request. -/
structure History (T : Type) [LinearOrder T] [Zero T] [One T] where
  manager : SessionLifecycleManager T
  stage : String → Stage

namespace History

def init (config : LifecycleConfig T) : History T := ⟨.init config, fun _ => .outside⟩

/-- A call of the manager; those made for a request come in order, and resolve to the session of it. -/
def step [Add T] (sessionOf : String → String) (h : History T) (call : LifecycleCall T) : Option (History T) :=
  match requestOf call with
  | none => some ⟨h.manager.call call, h.stage⟩
  | some reqContext =>
    if getSessionId reqContext = sessionOf reqContext.reqId then
      (nextStage (h.stage reqContext.reqId) call).map fun stage =>
        ⟨h.manager.call call, Function.update h.stage reqContext.reqId stage⟩
    else none

/-- Keys that a call records for a finished request find the session of the request. -/
def findsSession (h : History T) : LifecycleCall T → Bool
  | .recordRequestKeys reqContext _ _ =>
    h.stage reqContext.reqId ≠ .finished || (h.manager.getByReq reqContext).isSome
  | _ => true

/-- A call whose keys find a session. -/
def findingStep [Add T] (sessionOf : String → String) (h : History T) (call : LifecycleCall T) :
    Option (History T) :=
  if h.findsSession call then h.step sessionOf call else none

end History

/-- The requests that `field` lists are at one stage, and listed by their own sessions. -/
def Placed {T : Type} (sessionOf : String → String) (stage : String → Stage)
    (sessions : Dict String (SessionKVState T)) (field : SessionKVState T → Finset String) (expected : Stage) : Prop :=
  ∀ sessionId state, sessions.get? sessionId = some state →
    ∀ reqId ∈ field state, stage reqId = expected ∧ sessionOf reqId = sessionId

/-- Each request is where its stage puts it: in the active set of its session while it runs, and afterwards in
the retained set of it or nowhere. -/
structure Assigned (sessionOf : String → String) (stage : String → Stage) (m : SessionLifecycleManager T) : Prop where
  active : Placed sessionOf stage m.sessions SessionKVState.activeReqIds .running
  retained : Placed sessionOf stage m.sessions SessionKVState.retainedReqIds .finished
  running : ∀ reqId, stage reqId = .running →
    ∃ state, m.sessions.get? (sessionOf reqId) = some state ∧ reqId ∈ state.activeReqIds
  mapped : ∀ reqId sessionId, m.reqToSession.get? reqId = some sessionId →
    stage reqId ≠ .outside ∧ sessionOf reqId = sessionId

/-- A session without a stable identifier has a request. -/
def Held {T : Type} (sessions : Dict String (SessionKVState T)) : Prop :=
  ∀ sessionId state, sessions.get? sessionId = some state → state.hasStableId = false →
    state.activeReqIds ≠ ∅ ∨ state.retainedReqIds ≠ ∅

section Assigned

variable {sessionOf : String → String} {stage : String → Stage} {m m' : SessionLifecycleManager T}

omit [LinearOrder T] [Zero T] [One T] in
/-- One session is rewritten; it lists no other requests than before. -/
theorem Placed.rewrite {sessions sessions' : Dict String (SessionKVState T)}
    {field : SessionKVState T → Finset String} {expected : Stage}
    (placed : Placed sessionOf stage sessions field expected) {reqId : String} {state : SessionKVState T} {next : Stage}
    (rewritten : ∀ sessionId, sessions'.get? sessionId =
      if sessionId = sessionOf reqId then some state else sessions.get? sessionId)
    (others : ∀ other ∈ field state, other ≠ reqId →
      ∃ old, sessions.get? (sessionOf reqId) = some old ∧ other ∈ field old)
    (own : reqId ∈ field state → next = expected) :
    Placed sessionOf (Function.update stage reqId next) sessions' field expected := by
  intro sessionId known found other member
  rw [rewritten] at found
  rcases eq_or_ne other reqId with rfl | differ
  · rw [Function.update_self]
    split at found
    · next same =>
      obtain rfl := Option.some.inj found
      exact ⟨own member, same.symm⟩
    · next elsewhere => exact absurd (placed sessionId known found _ member).2.symm elsewhere
  · rw [Function.update_of_ne differ]
    split at found
    · next same =>
      obtain rfl := Option.some.inj found
      obtain ⟨old, before, was⟩ := others other member differ
      rw [same]
      exact placed _ old before other was
    · exact placed sessionId known found other member

/-- The session of a request is found by way of the request map or without it. -/
theorem Assigned.getByReq (assigned : Assigned sessionOf stage m) {reqContext : ReqContext}
    (resolves : getSessionId reqContext = sessionOf reqContext.reqId) :
    m.getByReq reqContext = m.sessions.get? (sessionOf reqContext.reqId) := by
  rw [Model.SessionLifecycleManager.getByReq]
  cases mapped : m.reqToSession.get? reqContext.reqId with
  | none => rw [Option.getD_none, resolves]
  | some sessionId => rw [Option.getD_some, (assigned.mapped _ _ mapped).2]

/-- A request moves on and its session is rewritten, with the other requests as they are. -/
theorem Assigned.rewrite (assigned : Assigned sessionOf stage m) {reqId : String} {state : SessionKVState T}
    {next : Stage}
    (sessions : ∀ sessionId, m'.sessions.get? sessionId =
      if sessionId = sessionOf reqId then some state else m.sessions.get? sessionId)
    (active : ∀ other, other ≠ reqId → (other ∈ state.activeReqIds ↔
      ∃ old, m.sessions.get? (sessionOf reqId) = some old ∧ other ∈ old.activeReqIds))
    (retained : ∀ other ∈ state.retainedReqIds, other ≠ reqId →
      ∃ old, m.sessions.get? (sessionOf reqId) = some old ∧ other ∈ old.retainedReqIds)
    (ownActive : reqId ∈ state.activeReqIds ↔ next = .running)
    (ownRetained : reqId ∈ state.retainedReqIds → next = .finished)
    (mapped : ∀ other sessionId, m'.reqToSession.get? other = some sessionId →
      if other = reqId then next ≠ .outside ∧ sessionOf reqId = sessionId
      else m.reqToSession.get? other = some sessionId) :
    Assigned sessionOf (Function.update stage reqId next) m' where
  active := assigned.active.rewrite sessions (fun other member differ => (active other differ).mp member) ownActive.mp
  retained := assigned.retained.rewrite sessions retained ownRetained
  running other runs := by
    rcases eq_or_ne other reqId with rfl | differ
    · rw [Function.update_self] at runs
      exact ⟨state, by rw [sessions, if_pos rfl], ownActive.mpr runs⟩
    · rw [Function.update_of_ne differ] at runs
      obtain ⟨old, before, was⟩ := assigned.running other runs
      rcases eq_or_ne (sessionOf other) (sessionOf reqId) with same | elsewhere
      · rw [same] at before ⊢
        exact ⟨state, by rw [sessions, if_pos rfl], (active other differ).mpr ⟨old, before, was⟩⟩
      · exact ⟨old, by rw [sessions, if_neg elsewhere, before], was⟩
  mapped other sessionId found := by
    have mapped := mapped other sessionId found
    split at mapped
    · next same => rwa [same, Function.update_self]
    · next differ =>
      rw [Function.update_of_ne differ]
      exact assigned.mapped other sessionId mapped

/-- Sessions without an active request are removed. -/
theorem Assigned.shrink (assigned : Assigned sessionOf stage m)
    (fewer : ∀ sessionId state, m'.sessions.get? sessionId = some state → m.sessions.get? sessionId = some state)
    (busy : ∀ sessionId state, m.sessions.get? sessionId = some state → state.activeReqIds ≠ ∅ →
      m'.sessions.get? sessionId = some state)
    (mapped : ∀ reqId sessionId, m'.reqToSession.get? reqId = some sessionId →
      m.reqToSession.get? reqId = some sessionId) : Assigned sessionOf stage m' where
  active sessionId state found := assigned.active sessionId state (fewer sessionId state found)
  retained sessionId state found := assigned.retained sessionId state (fewer sessionId state found)
  running reqId runs := by
    obtain ⟨state, found, member⟩ := assigned.running reqId runs
    exact ⟨state, busy _ state found (Finset.ne_empty_of_mem member), member⟩
  mapped reqId sessionId found := assigned.mapped reqId sessionId (mapped reqId sessionId found)

theorem get?_remove (m : SessionLifecycleManager T) (state : SessionKVState T) (now : T) (sessionId : String) :
    (m.remove state now).2.sessions.get? sessionId =
      if sessionId = state.sessionId then none else m.sessions.get? sessionId := by
  have erased : (m.remove state now).2.sessions = m.sessions.erase state.sessionId := rfl
  rw [erased, Dict.get?_erase]

theorem Assigned.remove (assigned : Assigned sessionOf stage m) (state : SessionKVState T) (now : T)
    (idle : ∀ current, m.sessions.get? state.sessionId = some current → current.activeReqIds = ∅) :
    Assigned sessionOf stage (m.remove state now).2 := by
  have mapped : (m.remove state now).2.reqToSession =
      m.reqToSession.filter fun reqId _ => reqId ∉ state.activeReqIds ∪ state.retainedReqIds := rfl
  apply assigned.shrink
  · intro sessionId known found
    rw [get?_remove] at found
    split at found
    · cases found
    · exact found
  · intro sessionId known found busy
    rw [get?_remove, if_neg, found]
    rintro rfl
    exact busy (idle known found)
  · intro reqId sessionId found
    rw [mapped, Dict.get?_filter] at found
    exact (Option.filter_eq_some_iff.mp found).1

/-! ## Sessions without a stable identifier -/

/-- One session is rewritten and has a request if it needs one. -/
theorem Held.rewrite (held : Held m.sessions) {sessionId : String} {state : SessionKVState T}
    (sessions : ∀ other, m'.sessions.get? other =
      if other = sessionId then some state else m.sessions.get? other)
    (has : state.hasStableId = false → state.activeReqIds ≠ ∅ ∨ state.retainedReqIds ≠ ∅) : Held m'.sessions := by
  intro other known found
  rw [sessions] at found
  split at found
  · obtain rfl := Option.some.inj found
    exact has
  · exact held other known found

/-- Sessions that are left are held as before. -/
theorem Held.shrink (held : Held m.sessions) (fewer : ∀ sessionId state,
    m'.sessions.get? sessionId = some state → m.sessions.get? sessionId = some state) : Held m'.sessions :=
  fun sessionId state found => held sessionId state (fewer sessionId state found)

end Assigned

/-! ## One call -/

section Calls

variable {sessionOf : String → String} {stage : String → Stage} {m m' : SessionLifecycleManager T}
  {reqContext : ReqContext}

/-- What the calls keep: the sessions agree with the tracker, list each request once at its stage, and are
held by a request when they have no stable identifier. -/
structure Settled (sessionOf : String → String) (stage : String → Stage) (m : SessionLifecycleManager T) : Prop where
  coherent : Coherent m.sessions m.residency
  assigned : Assigned sessionOf stage m
  held : Held m.sessions

/-- The session of a request that is in one. -/
theorem Settled.session (settled : Settled sessionOf stage m)
    (resolves : getSessionId reqContext = sessionOf reqContext.reqId) {state : SessionKVState T}
    (found : m.getByReq reqContext = some state) :
    m.sessions.get? (sessionOf reqContext.reqId) = some state ∧ state.sessionId = sessionOf reqContext.reqId := by
  rw [settled.assigned.getByReq resolves] at found
  exact ⟨found, settled.coherent.stored _ state found⟩

/-- Whether a request is active in its session shows in its stage. -/
theorem Assigned.mem_activeReqIds (assigned : Assigned sessionOf stage m) {reqId : String} {state : SessionKVState T}
    (found : m.sessions.get? (sessionOf reqId) = some state) : reqId ∈ state.activeReqIds ↔ stage reqId = .running := by
  constructor
  · exact fun member => (assigned.active _ state found reqId member).1
  · intro runs
    obtain ⟨same, again, member⟩ := assigned.running reqId runs
    obtain rfl := Option.some.inj (found.symm.trans again)
    exact member

/-- A session is rewritten in other fields than its requests. -/
theorem Assigned.refresh (assigned : Assigned sessionOf stage m) {reqId : String} {old state : SessionKVState T}
    (found : m.sessions.get? (sessionOf reqId) = some old)
    (sessions : ∀ sessionId, m'.sessions.get? sessionId =
      if sessionId = sessionOf reqId then some state else m.sessions.get? sessionId)
    (active : state.activeReqIds = old.activeReqIds) (retained : state.retainedReqIds = old.retainedReqIds)
    (mapped : m'.reqToSession = m.reqToSession) : Assigned sessionOf stage m' := by
  have rewritten : Assigned sessionOf (Function.update stage reqId (stage reqId)) m' := by
    apply assigned.rewrite sessions
    · intro other _
      simp [active, found]
    · intro other member _
      exact ⟨old, found, retained ▸ member⟩
    · rw [active]
      exact assigned.mem_activeReqIds found
    · rw [retained]
      exact fun member => (assigned.retained _ old found reqId member).1
    · intro other sessionId known
      rw [mapped] at known
      split
      · next same => exact same ▸ assigned.mapped other sessionId known
      · exact known
  rwa [Function.update_eq_self] at rewritten

theorem get?_put (m : SessionLifecycleManager T) (state : SessionKVState T) (sessionId : String) :
    (m.put state).sessions.get? sessionId =
      if sessionId = state.sessionId then some state else m.sessions.get? sessionId :=
  Dict.get?_set ..

/-- The requests of a session that has been given a new one. -/
theorem admitted_requests (m : SessionLifecycleManager T) (reqContext : ReqContext) (now : T) :
    (admitted m reqContext now).activeReqIds = insert reqContext.reqId
        (((m.sessions.get? (getSessionId reqContext)).map SessionKVState.activeReqIds).getD ∅) ∧
      (admitted m reqContext now).retainedReqIds =
        (((m.sessions.get? (getSessionId reqContext)).map SessionKVState.retainedReqIds).getD ∅).erase
          reqContext.reqId := by
  unfold admitted
  cases m.sessions.get? (getSessionId reqContext) <;> exact ⟨rfl, rfl⟩

theorem Settled.onNewRequest (settled : Settled sessionOf stage m) (enabled : m.enabled = true)
    (resolves : getSessionId reqContext = sessionOf reqContext.reqId) (trackHeat : Bool) (clock : ℕ → T) :
    Settled sessionOf (Function.update stage reqContext.reqId .running)
      (m.onNewRequest reqContext trackHeat clock).2 := by
  obtain ⟨_, sessions, mapped, _⟩ :=
    onNewRequest_spec settled.coherent.stored reqContext trackHeat clock (.inl enabled)
  obtain ⟨active, retained⟩ := admitted_requests m reqContext (clock 0)
  rw [resolves] at sessions active retained
  refine ⟨coherent_onNewRequest settled.coherent enabled reqContext trackHeat clock, ?_, ?_⟩
  · apply settled.assigned.rewrite sessions
    · intro other differ
      rw [active, Finset.mem_insert, or_iff_right differ]
      cases m.sessions.get? (sessionOf reqContext.reqId) <;> simp
    · intro other member _
      rw [retained, Finset.mem_erase] at member
      cases before : m.sessions.get? (sessionOf reqContext.reqId) with
      | none => simp [before] at member
      | some old => exact ⟨old, rfl, by simpa [before] using member.2⟩
    · simp [active]
    · simp [retained]
    · intro other sessionId known
      rw [mapped, Dict.get?_set, resolves] at known
      split at known
      · next same =>
        rw [if_pos same]
        exact ⟨by decide, Option.some.inj known⟩
      · next differ => rwa [if_neg differ]
  · apply settled.held.rewrite sessions
    intro _
    exact .inl (active ▸ Finset.insert_ne_empty _ _)

/-- The session of a request is rewritten in other fields than those the invariant reads. -/
theorem Settled.refresh (settled : Settled sessionOf stage m)
    (resolves : getSessionId reqContext = sessionOf reqContext.reqId) {old : SessionKVState T}
    (found : m.getByReq reqContext = some old) (state : SessionKVState T)
    (same : state.sessionId = old.sessionId ∧ state.hasStableId = old.hasStableId ∧
      state.activeReqIds = old.activeReqIds ∧ state.retainedReqIds = old.retainedReqIds)
    (sessions : m'.sessions = (m.put state).sessions) (mapped : m'.reqToSession = m.reqToSession)
    (coherent : Coherent m'.sessions m'.residency) : Settled sessionOf stage m' := by
  obtain ⟨sameId, sameStable, sameActive, sameRetained⟩ := same
  obtain ⟨known, stored⟩ := settled.session resolves found
  have rewritten : ∀ sessionId, m'.sessions.get? sessionId =
      if sessionId = sessionOf reqContext.reqId then some state else m.sessions.get? sessionId := by
    intro sessionId
    rw [sessions, get?_put, sameId, stored]
  refine ⟨coherent, settled.assigned.refresh known rewritten sameActive sameRetained mapped, ?_⟩
  apply settled.held.rewrite rewritten
  rw [sameStable, sameActive, sameRetained]
  exact settled.held _ old known

theorem Settled.recordReuseHit (settled : Settled sessionOf stage m)
    (resolves : getSessionId reqContext = sessionOf reqContext.reqId) (numBlocks : ℤ) (clock : ℕ → T) :
    Settled sessionOf stage (m.recordReuseHit reqContext numBlocks clock) := by
  have coherent := coherent_recordReuseHit settled.coherent reqContext numBlocks clock
  cases found : m.getByReq reqContext with
  | none =>
    have unchanged : m.recordReuseHit reqContext numBlocks clock = m := by
      rw [Model.SessionLifecycleManager.recordReuseHit, found]
    rwa [unchanged]
  | some state =>
    obtain ⟨hit, result, same⟩ : ∃ hit : SessionKVState T,
        m.recordReuseHit reqContext numBlocks clock = m.put hit ∧ hit.sessionId = state.sessionId ∧
        hit.hasStableId = state.hasStableId ∧ hit.activeReqIds = state.activeReqIds ∧
        hit.retainedReqIds = state.retainedReqIds := by
      rw [Model.SessionLifecycleManager.recordReuseHit, found]
      dsimp only
      split <;> exact ⟨_, rfl, rfl, rfl, rfl, rfl⟩
    rw [result] at coherent ⊢
    exact settled.refresh resolves found hit same rfl rfl coherent

theorem Settled.recordRequestKeys (settled : Settled sessionOf stage m) (enabled : m.enabled = true)
    (resolves : getSessionId reqContext = sessionOf reqContext.reqId) {state : SessionKVState T}
    (found : m.getByReq reqContext = some state) (keys : List OffloadKey) (clock : ℕ → T) :
    Settled sessionOf stage (m.recordRequestKeys reqContext keys clock) := by
  have coherent := coherent_recordRequestKeys settled.coherent enabled reqContext keys clock
  let recorded : SessionKVState T := { state with
    blockKeys := state.blockKeys ∪ keys.toFinset
    lastAccessAt := clock 2 }
  have result : m.recordRequestKeys reqContext keys clock =
      { m.put recorded with residency := m.residency.recordAccess state.sessionId keys (clock 3) } := by
    rw [Model.SessionLifecycleManager.recordRequestKeys, if_neg (by simp [enabled]), getOrNew, found]
    rfl
  rw [result] at coherent ⊢
  exact settled.refresh resolves found recorded ⟨rfl, rfl, rfl, rfl⟩ rfl rfl coherent

/-- A request that runs is in its session. -/
theorem Settled.getByReq_of_running (settled : Settled sessionOf stage m)
    (resolves : getSessionId reqContext = sessionOf reqContext.reqId) (runs : stage reqContext.reqId = .running) :
    ∃ state, m.getByReq reqContext = some state := by
  obtain ⟨state, found, -⟩ := settled.assigned.running _ runs
  exact ⟨state, by rw [settled.assigned.getByReq resolves, found]⟩

/-- A request leaves the active set of its session. -/
theorem Settled.onRequestFinished [Add T] (settled : Settled sessionOf stage m) (enabled : m.enabled = true)
    (resolves : getSessionId reqContext = sessionOf reqContext.reqId) (runs : stage reqContext.reqId = .running)
    (trackHeat : Bool) (clock : ℕ → T) :
    Settled sessionOf (Function.update stage reqContext.reqId .finished)
      (m.onRequestFinished reqContext trackHeat clock) := by
  have coherent := coherent_onRequestFinished settled.coherent enabled reqContext trackHeat clock
  obtain ⟨old, found⟩ := settled.getByReq_of_running resolves runs
  obtain ⟨known, stored⟩ := settled.session resolves found
  -- both branches write back the session with the request moved from one set to the other
  obtain ⟨state, sessions, sameId, active, retained, mapped⟩ : ∃ state : SessionKVState T,
      (m.onRequestFinished reqContext trackHeat clock).sessions = (m.put state).sessions ∧
      state.sessionId = old.sessionId ∧ state.activeReqIds = old.activeReqIds.erase reqContext.reqId ∧
      state.retainedReqIds = insert reqContext.reqId old.retainedReqIds ∧
      (m.onRequestFinished reqContext trackHeat clock).reqToSession = m.reqToSession := by
    rw [Model.SessionLifecycleManager.onRequestFinished, if_neg (by simp [enabled]), getOrNew, found]
    dsimp only
    split <;> exact ⟨_, rfl, rfl, rfl, rfl, rfl⟩
  have rewritten : ∀ sessionId, (m.onRequestFinished reqContext trackHeat clock).sessions.get? sessionId =
      if sessionId = sessionOf reqContext.reqId then some state else m.sessions.get? sessionId := by
    intro sessionId
    rw [sessions, get?_put, sameId, stored]
  refine ⟨coherent, ?_, settled.held.rewrite rewritten fun _ => .inr (retained ▸ Finset.insert_ne_empty _ _)⟩
  apply settled.assigned.rewrite rewritten
  · intro other differ
    simp [active, known, differ]
  · intro other member differ
    rw [retained, Finset.mem_insert, or_iff_right differ] at member
    exact ⟨old, known, member⟩
  · simp [active]
  · exact fun _ => rfl
  · intro other sessionId before
    rw [mapped] at before
    split
    · next same => exact ⟨by decide, same ▸ (settled.assigned.mapped other sessionId before).2⟩
    · exact before

/-- A request whose session is gone leaves without a trace. -/
theorem Assigned.leave (assigned : Assigned sessionOf stage m) {reqId : String}
    (gone : m.sessions.get? (sessionOf reqId) = none) (sessions : m'.sessions = m.sessions)
    (mapped : ∀ other sessionId, m'.reqToSession.get? other = some sessionId →
      if other = reqId then Stage.outside ≠ .outside ∧ sessionOf reqId = sessionId
      else m.reqToSession.get? other = some sessionId) :
    Assigned sessionOf (Function.update stage reqId .outside) m' := by
  have elsewhere : ∀ other sessionId state, m.sessions.get? sessionId = some state →
      sessionOf other = sessionId → other ≠ reqId := by
    rintro other sessionId state known rfl rfl
    cases known.symm.trans gone
  constructor
  · intro sessionId state known other member
    rw [sessions] at known
    obtain ⟨runs, same⟩ := assigned.active sessionId state known other member
    rw [Function.update_of_ne (elsewhere other sessionId state known same)]
    exact ⟨runs, same⟩
  · intro sessionId state known other member
    rw [sessions] at known
    obtain ⟨finished, same⟩ := assigned.retained sessionId state known other member
    rw [Function.update_of_ne (elsewhere other sessionId state known same)]
    exact ⟨finished, same⟩
  · intro other runs
    rw [sessions]
    rcases eq_or_ne other reqId with rfl | differ
    · simp at runs
    · rw [Function.update_of_ne differ] at runs
      exact assigned.running other runs
  · intro other sessionId before
    have kept := mapped other sessionId before
    split at kept
    · exact absurd rfl kept.1
    · next differ =>
      rw [Function.update_of_ne differ]
      exact assigned.mapped other sessionId kept

/-- The session of a finalized request without the request. -/
theorem Settled.onRequestFinalized (settled : Settled sessionOf stage m)
    (resolves : getSessionId reqContext = sessionOf reqContext.reqId) (ended : stage reqContext.reqId = .finished)
    (clock : ℕ → T) :
    Settled sessionOf (Function.update stage reqContext.reqId .outside) (m.onRequestFinalized reqContext clock) := by
  have coherent := coherent_onRequestFinalized settled.coherent reqContext clock
  let unmapped : SessionLifecycleManager T := { m with reqToSession := m.reqToSession.erase reqContext.reqId }
  have mapped : ∀ other sessionId, unmapped.reqToSession.get? other = some sessionId →
      if other = reqContext.reqId then Stage.outside ≠ .outside ∧ sessionOf reqContext.reqId = sessionId
      else m.reqToSession.get? other = some sessionId := by
    intro other sessionId before
    rw [Dict.get?_erase] at before
    split at before
    · cases before
    · next differ => rwa [if_neg differ]
  cases found : m.getByReq reqContext with
  | none =>
    have result : m.onRequestFinalized reqContext clock = unmapped := by
      rw [Model.SessionLifecycleManager.onRequestFinalized, found]
    rw [result] at coherent ⊢
    rw [settled.assigned.getByReq resolves] at found
    exact ⟨coherent, settled.assigned.leave found rfl mapped, settled.held⟩
  | some old =>
    obtain ⟨known, stored⟩ := settled.session resolves found
    let state : SessionKVState T := { old with retainedReqIds := old.retainedReqIds.erase reqContext.reqId }
    have rewritten : ∀ sessionId, (unmapped.put state).sessions.get? sessionId =
        if sessionId = sessionOf reqContext.reqId then some state else m.sessions.get? sessionId := by
      intro sessionId
      rw [get?_put, ← stored]
    have released : Assigned sessionOf (Function.update stage reqContext.reqId .outside) (unmapped.put state) := by
      apply settled.assigned.rewrite rewritten
      · intro other _
        simp [state, known]
      · intro other member _
        exact ⟨old, known, Finset.mem_of_mem_erase member⟩
      · have idle : reqContext.reqId ∉ old.activeReqIds := by
          rw [settled.assigned.mem_activeReqIds known, ended]
          decide
        simp [state, idle]
      · simp [state]
      · exact mapped
    have result : m.onRequestFinalized reqContext clock =
        if state.activeReqIds ≠ ∅ ∨ state.retainedReqIds ≠ ∅ then unmapped.put state
        else if state.hasStableId then unmapped.put state
        else ((unmapped.put state).remove state (clock 0)).2 := by
      rw [Model.SessionLifecycleManager.onRequestFinalized, found]
    rw [result] at coherent ⊢
    split_ifs at coherent ⊢ with busy stable
    · exact ⟨coherent, released, settled.held.rewrite rewritten fun _ => busy⟩
    · exact ⟨coherent, released, settled.held.rewrite rewritten fun unstable => absurd stable (by simp [unstable])⟩
    · refine ⟨coherent, ?_, ?_⟩
      · apply released.remove
        intro current again
        rw [get?_put, if_pos rfl] at again
        obtain rfl := Option.some.inj again
        exact not_not.mp fun some => busy (.inl some)
      · apply settled.held.shrink
        intro sessionId other kept
        rw [get?_remove, get?_put] at kept
        split at kept
        · cases kept
        · exact kept

/-- A loop that removes idle sessions only, each of them one of the sessions at first. -/
theorem Settled.foldl {body : ExpirationResult × SessionLifecycleManager T → SessionKVState T →
      ExpirationResult × SessionLifecycleManager T} (settled : Settled sessionOf stage m)
    {order : List (SessionKVState T)} (listed : ∀ state ∈ order, state ∈ m.sessions.values)
    (each : ∀ acc, ∀ state ∈ order, (body acc state).2 = acc.2 ∨
      state.isIdle = true ∧ ∃ now, (body acc state).2 = (acc.2.remove state now).2) (result : ExpirationResult) :
    Settled sessionOf stage (order.foldl body (result, m)).2 := by
  have idle : ∀ state ∈ order, state.isIdle = true → state.activeReqIds = ∅ := by
    intro state member isIdle
    have present := present_of_mem_values settled.coherent.stored (listed state member)
    rcases settled.coherent.status _ state present with ⟨active, -⟩ | ⟨-, none⟩
    · simp [SessionKVState.isIdle, active] at isIdle
    · exact none
  refine (List.foldlRecOn order body (motive := fun acc : ExpirationResult × SessionLifecycleManager T =>
    Settled sessionOf stage acc.2 ∧ ∀ sessionId state, acc.2.sessions.get? sessionId = some state →
      m.sessions.get? sessionId = some state) ⟨settled, fun _ _ => id⟩ ?_).1
  rintro acc ⟨kept, fewer⟩ state member
  rcases each acc state member with same | ⟨isIdle, now, removed⟩
  · rw [same]
    exact ⟨kept, fewer⟩
  · rw [removed]
    have smaller : ∀ sessionId known, (acc.2.remove state now).2.sessions.get? sessionId = some known →
        acc.2.sessions.get? sessionId = some known := by
      intro sessionId known found
      rw [get?_remove] at found
      split at found
      · cases found
      · exact found
    refine ⟨⟨coherent_remove kept.coherent state now, ?_, kept.held.shrink smaller⟩, ?_⟩
    · apply kept.assigned.remove
      intro current found
      have present := present_of_mem_values settled.coherent.stored (listed state member)
      obtain rfl := Option.some.inj (present.symm.trans (fewer _ current found))
      exact idle _ member isIdle
    · exact fun sessionId known found => fewer sessionId known (smaller sessionId known found)

theorem Settled.expireIdleSessions (settled : Settled sessionOf stage m) (protectedKeys : Finset OffloadKey)
    (protectedReqIds : Finset String) (clock : ℕ → T) :
    Settled sessionOf stage (m.expireIdleSessions protectedKeys protectedReqIds clock).2 := by
  simp only [Model.SessionLifecycleManager.expireIdleSessions, expireIdleSessionsIn]
  split_ifs
  · exact settled
  · exact settled
  · have expired : Settled sessionOf stage
        (expireLoop (clock 0) protectedKeys protectedReqIds clock m.sessions.values m).2 := by
      apply settled.foldl (fun _ => id)
      intro acc state _
      rw [expireOne]
      split
      · next due =>
        simp only [expires, Bool.and_eq_true] at due
        exact .inr ⟨due.1.1.1, _, rfl⟩
      · exact .inl rfl
    exact ⟨expired.coherent, ⟨expired.assigned.active, expired.assigned.retained, expired.assigned.running,
      expired.assigned.mapped⟩, expired.held⟩

theorem Settled.pruneIdleSessions (settled : Settled sessionOf stage m) (clock : ℕ → T) :
    Settled sessionOf stage (m.pruneIdleSessions clock).2 := by
  simp only [Model.SessionLifecycleManager.pruneIdleSessions, pruneIdleSessionsIn]
  split
  · exact settled
  · have prunables : ∀ state ∈ (sortedBy (fun state => state.lastAccessAt)
        (m.sessions.values.filter prunable)).take (m.sessions.size - m.config.maxSessions),
        state ∈ m.sessions.values ∧ prunable state = true := by
      intro state member
      have sorted := List.mem_of_mem_take member
      rw [mem_sortedBy] at sorted
      exact List.mem_filter.mp sorted
    apply settled.foldl (fun state member => (prunables state member).1)
    intro acc state member
    have eligible := (prunables state member).2
    simp only [prunable, Bool.and_eq_true] at eligible
    exact .inr ⟨eligible.1.1, _, rfl⟩

end Calls

section Runs

variable [Add T] {sessionOf : String → String}

/-- A call made for a request is in order, resolves to its session, and moves it to its next stage. -/
theorem History.step_request {h h' : History T} {call : LifecycleCall T} {reqContext : ReqContext}
    (moved : h.step sessionOf call = some h') (request : requestOf call = some reqContext) :
    getSessionId reqContext = sessionOf reqContext.reqId ∧
      ∃ stage, nextStage (h.stage reqContext.reqId) call = some stage ∧
        h' = ⟨h.manager.call call, Function.update h.stage reqContext.reqId stage⟩ := by
  simp only [step, request] at moved
  split_ifs at moved with resolves
  obtain ⟨stage, advanced, rfl⟩ := Option.map_eq_some_iff.mp moved
  exact ⟨resolves, stage, advanced, rfl⟩

/-- A call made for no request leaves all of them at their stages. -/
theorem History.step_other {h h' : History T} {call : LifecycleCall T}
    (moved : h.step sessionOf call = some h') (other : requestOf call = none) :
    h' = ⟨h.manager.call call, h.stage⟩ := by
  simp only [step, other] at moved
  exact (Option.some.inj moved).symm

theorem settled_step {h h' : History T} {call : LifecycleCall T} (enabled : h.manager.enabled = true)
    (settled : Settled sessionOf h.stage h.manager) (moved : h.findingStep sessionOf call = some h') :
    Settled sessionOf h'.stage h'.manager := by
  obtain ⟨finds, moved⟩ := Option.ite_none_right_eq_some.mp moved
  cases call with
  | onNewRequest reqContext trackHeat clock =>
    obtain ⟨resolves, stage, advanced, rfl⟩ := History.step_request moved rfl
    cases at_ : h.stage reqContext.reqId <;> simp only [at_, nextStage, reduceCtorEq] at advanced
    obtain rfl := Option.some.inj advanced
    exact settled.onNewRequest enabled resolves trackHeat clock
  | recordReuseHit reqContext numBlocks clock =>
    obtain ⟨resolves, stage, advanced, rfl⟩ := History.step_request moved rfl
    obtain rfl : h.stage reqContext.reqId = stage := by
      cases at_ : h.stage reqContext.reqId <;> simpa only [at_, nextStage, Option.some.injEq] using advanced
    rw [Function.update_eq_self]
    exact settled.recordReuseHit resolves numBlocks clock
  | recordRequestKeys reqContext keys clock =>
    obtain ⟨resolves, stage, advanced, rfl⟩ := History.step_request moved rfl
    obtain ⟨same, state, found⟩ : h.stage reqContext.reqId = stage ∧
        ∃ state, h.manager.getByReq reqContext = some state := by
      cases at_ : h.stage reqContext.reqId with
      | outside => simp [at_, nextStage] at advanced
      | running =>
        rw [at_] at advanced
        exact ⟨Option.some.inj advanced, settled.getByReq_of_running resolves at_⟩
      | finished =>
        rw [at_] at advanced
        simp only [History.findsSession, at_, ne_eq, not_true, decide_false, Bool.false_or] at finds
        exact ⟨Option.some.inj advanced, Option.isSome_iff_exists.mp finds⟩
    rw [← same, Function.update_eq_self]
    exact settled.recordRequestKeys enabled resolves found keys clock
  | onRequestFinished reqContext trackHeat clock =>
    obtain ⟨resolves, stage, advanced, rfl⟩ := History.step_request moved rfl
    cases at_ : h.stage reqContext.reqId <;> simp only [at_, nextStage, reduceCtorEq] at advanced
    obtain rfl := Option.some.inj advanced
    exact settled.onRequestFinished enabled resolves at_ trackHeat clock
  | onRequestFinalized reqContext clock =>
    obtain ⟨resolves, stage, advanced, rfl⟩ := History.step_request moved rfl
    cases at_ : h.stage reqContext.reqId <;> simp only [at_, nextStage, reduceCtorEq] at advanced
    obtain rfl := Option.some.inj advanced
    exact settled.onRequestFinalized resolves at_ clock
  | expireIdleSessions protectedKeys protectedReqIds clock =>
    rw [History.step_other moved rfl]
    exact settled.expireIdleSessions protectedKeys protectedReqIds clock
  | pruneIdleSessions clock =>
    rw [History.step_other moved rfl]
    exact settled.pruneIdleSessions clock
  | residency call =>
    rw [History.step_other moved rfl]
    exact ⟨coherent_call settled.coherent enabled (.residency call), ⟨settled.assigned.active,
      settled.assigned.retained, settled.assigned.running, settled.assigned.mapped⟩, settled.held⟩

theorem config_step {h h' : History T} {call : LifecycleCall T} (moved : h.step sessionOf call = some h') :
    h'.manager.config = h.manager.config := by
  cases request : requestOf call with
  | none => rw [History.step_other moved request, config_call]
  | some reqContext =>
    obtain ⟨-, _, -, rfl⟩ := History.step_request moved request
    exact config_call h.manager call

theorem settled_run {config : LifecycleConfig T} (enabled : config.enabled = true)
    {calls : List (LifecycleCall T)} {h : History T}
    (run : Run (Steps (History.findingStep sessionOf)) (.init config) calls h) :
    Settled sessionOf h.stage h.manager := by
  refine (run.preserves (fun h => h.manager.config = config ∧ Settled sessionOf h.stage h.manager)
    ⟨rfl, coherent_after enabled [], ?_, ?_⟩ ?_).2
  · constructor
    · exact fun _ _ found => by cases found
    · exact fun _ _ found => by cases found
    · exact fun _ runs => by cases runs
    · exact fun _ _ found => by cases found
  · exact fun _ _ found => by cases found
  · rintro source call target - ⟨same, settled⟩ moved
    refine ⟨(config_step (Option.ite_none_right_eq_some.mp moved).2).trans same, settled_step ?_ settled moved⟩
    rw [Model.SessionLifecycleManager.enabled, same, enabled]

/-- Nothing is left of the session in the tracker. -/
def Untracked (t : BlockResidencyTracker T) (sessionId : String) : Prop :=
  t.sessionKeys.get? sessionId = none ∧ sessionId ∉ t.activeSessions ∧ ∀ key, sessionId ∉ owners t key

/-- A request that is not between its first call and its last is in no session and not in the request map; and
when this is so of all requests, the sessions left are idle and have stable identifiers, and no other session
is in the tracker. -/
def Releases (h : History T) : Prop :=
  (∀ reqId, h.stage reqId = .outside →
    (∀ sessionId state, h.manager.sessions.get? sessionId = some state →
      reqId ∉ state.activeReqIds ∧ reqId ∉ state.retainedReqIds) ∧
    h.manager.reqToSession.get? reqId = none) ∧
  ((∀ reqId, h.stage reqId = .outside) → ∀ sessionId,
    (∃ state, h.manager.sessions.get? sessionId = some state ∧ state.status ≠ .active ∧ state.hasStableId = true) ∨
    h.manager.sessions.get? sessionId = none ∧ Untracked h.manager.residency sessionId)

/-- Finalized requests are released for good in every run of an enabled manager in which the keys recorded for
a finished request find its session. -/
theorem finalized_released {config : LifecycleConfig T} (enabled : config.enabled = true)
    {calls : List (LifecycleCall T)} {h : History T}
    (run : Run (Steps (History.findingStep sessionOf)) (.init config) calls h) : Releases h := by
  obtain ⟨coherent, assigned, held⟩ := settled_run enabled run
  constructor
  · intro reqId outside
    constructor
    · intro sessionId state found
      constructor
      · intro member
        cases outside.symm.trans (assigned.active sessionId state found reqId member).1
      · intro member
        cases outside.symm.trans (assigned.retained sessionId state found reqId member).1
    · cases mapped : h.manager.reqToSession.get? reqId with
      | none => rfl
      | some sessionId => exact absurd outside (assigned.mapped reqId sessionId mapped).1
  · intro allOutside sessionId
    cases found : h.manager.sessions.get? sessionId with
    | none =>
      have noKeys := coherent.gone sessionId found
      refine .inr ⟨rfl, noKeys, ?_, ?_⟩
      · rw [coherent.active]
        rintro ⟨state, known, -⟩
        cases found.symm.trans known
      · intro key owner
        rw [coherent.indexed.owned, getSessionKeys, noKeys] at owner
        simp at owner
    | some state =>
      have noActive : state.activeReqIds = ∅ := by
        apply Finset.eq_empty_of_forall_notMem
        intro reqId member
        cases (allOutside reqId).symm.trans (assigned.active sessionId state found reqId member).1
      have noRetained : state.retainedReqIds = ∅ := by
        apply Finset.eq_empty_of_forall_notMem
        intro reqId member
        cases (allOutside reqId).symm.trans (assigned.retained sessionId state found reqId member).1
      refine .inl ⟨state, rfl, ?_, ?_⟩
      · rcases coherent.status sessionId state found with ⟨-, busy⟩ | ⟨idle, -⟩
        · exact absurd noActive busy
        · rw [idle]
          decide
      · cases stable : state.hasStableId with
        | true => rfl
        | false =>
          rcases held sessionId state found stable with some | some
          · exact absurd noActive some
          · exact absurd noRetained some

/-- The session expires between the end of its request and the last keys recorded for it. -/
def lateCalls : List (LifecycleCall ℤ) :=
  [.onNewRequest (conversation "r1" "s1") false fun _ => 0,
    .onRequestFinished (conversation "r1" "s1") false fun _ => 1,
    .expireIdleSessions ∅ ∅ fun _ => 20,
    .recordRequestKeys (conversation "r1" "s1") [[1]] fun _ => 21,
    .onRequestFinalized (conversation "r1" "s1") fun _ => 22]

theorem finalized_still_active : tenUnits.enabled = true ∧ ∃ h : History ℤ,
    Run (Steps (History.step fun _ => "s1")) (.init tenUnits) lateCalls h ∧ h.stage "r1" = .outside ∧
      ∃ state, h.manager.sessions.get? "s1" = some state ∧ state.status = .active ∧ "r1" ∈ state.activeReqIds := by
  have executed : ((replay (History.step fun _ => "s1") (.init tenUnits) lateCalls).map fun h =>
      (h.stage "r1", (h.manager.sessions.get? "s1").map fun state =>
        (state.status, decide ("r1" ∈ state.activeReqIds)))) = some (.outside, some (.active, true)) := by decide
  obtain ⟨h, replayed, facts⟩ := Option.map_eq_some_iff.mp executed
  obtain ⟨outside, listed⟩ := Prod.mk.inj facts
  obtain ⟨state, found, facts⟩ := Option.map_eq_some_iff.mp listed
  obtain ⟨active, member⟩ := Prod.mk.inj facts
  exact ⟨by decide, h, Run.of_replay replayed, outside, state, found, active, of_decide_eq_true member⟩

/-- The same request while its session is protected. -/
def protectedCalls : List (LifecycleCall ℤ) :=
  [.onNewRequest (conversation "r1" "s1") false fun _ => 0,
    .onRequestFinished (conversation "r1" "s1") false fun _ => 1,
    .expireIdleSessions ∅ {"r1"} fun _ => 20,
    .recordRequestKeys (conversation "r1" "s1") [[1]] fun _ => 21,
    .onRequestFinalized (conversation "r1" "s1") fun _ => 22]

theorem finalized_released_protected : ∃ h : History ℤ,
    Run (Steps (History.findingStep fun _ => "s1")) (.init tenUnits) protectedCalls h ∧
      h.manager.sessions.get? "s1" ≠ none ∧ Releases h := by
  have executed : ((replay (History.findingStep fun _ => "s1") (.init tenUnits) protectedCalls).map fun h =>
      (h.manager.sessions.get? "s1").isSome) = some true := by decide
  obtain ⟨h, replayed, kept⟩ := Option.map_eq_some_iff.mp executed
  have run := Run.of_replay replayed
  exact ⟨h, run, Option.isSome_iff_ne_none.mp kept, finalized_released (by decide) run⟩

end Runs

end SessionLifecycleManager

end KVTiering.Soundness
