import KVTiering.Model.Request
import KVTiering.Model.Residency
import Mathlib.Algebra.Field.Rat
import Mathlib.Algebra.Order.Ring.Int
import Mathlib.Data.Finset.Card

/-! # Session lifecycle

Requests belong to sessions; a session is active while one of its requests is, and idle afterwards, until
its deadline passes, its metadata is pruned, or its last request is finalized. The manager keeps the
sessions and drives the residency tracker. A method that reads the clock is given a sequence of readings and
uses them from the first on; nothing relates one reading to another.
-/

namespace KVTiering.Model

inductive LifecycleStatus where
  | active
  | idleRetained
  | expired
  | deleted
deriving DecidableEq, Repr

structure SessionKVState (T : Type) where
  sessionId : String
  hasStableId : Bool
  status : LifecycleStatus
  createdAt : T
  lastAccessAt : T
  ttlDeadline : Option T
  activeReqIds : Finset String
  retainedReqIds : Finset String
  blockKeys : Finset OffloadKey
  requestCount : ℕ
  reuseRequestCount : ℕ
  reuseHitBlocks : ℕ
  lastReuseAt : Option T
  lastReuseReqId : Option String

namespace SessionKVState

variable {T : Type}

/-- A new active session, with the defaults of the other fields. -/
def init (sessionId : String) (hasStableId : Bool) (now : T) : SessionKVState T where
  sessionId := sessionId
  hasStableId := hasStableId
  status := .active
  createdAt := now
  lastAccessAt := now
  ttlDeadline := none
  activeReqIds := ∅
  retainedReqIds := ∅
  blockKeys := ∅
  requestCount := 0
  reuseRequestCount := 0
  reuseHitBlocks := 0
  lastReuseAt := none
  lastReuseReqId := none

def isIdle (state : SessionKVState T) : Bool := state.status = .idleRetained

end SessionKVState

/-- The fields of the configuration, with the checks of `__post_init__` passed. -/
structure LifecycleConfig (T : Type) [LinearOrder T] [Zero T] [One T] where
  idleTtlSec : T
  cpuDemoteAfterSec : T
  cpuHighWatermark : T
  cpuLowWatermark : T
  reclaimBatchSize : ℕ
  residencyMaxEntries : ℕ
  maxSessions : ℕ
  residencyTrackingEnabled : Bool
  idleTtlSec_nonneg : 0 ≤ idleTtlSec
  cpuDemoteAfterSec_nonneg : 0 ≤ cpuDemoteAfterSec
  cpuLowWatermark_pos : 0 < cpuLowWatermark
  cpuLowWatermark_le : cpuLowWatermark ≤ cpuHighWatermark
  cpuHighWatermark_le : cpuHighWatermark ≤ 1
  reclaimBatchSize_pos : 0 < reclaimBatchSize
  residencyMaxEntries_pos : 0 < residencyMaxEntries
  maxSessions_pos : 0 < maxSessions

/-- An integer that passes the check of its sign. -/
theorem toNat_pos_of_not_le {n : ℤ} (checked : ¬ n ≤ 0) : 0 < n.toNat := by omega

namespace LifecycleConfig

variable {T : Type} [LinearOrder T] [Zero T] [One T]

/-- `__post_init__`, with the messages of its `ValueError`s; `isFinite` is `math.isfinite`. -/
def init (isFinite : T → Bool) (idleTtlSec cpuDemoteAfterSec cpuHighWatermark cpuLowWatermark : T)
    (reclaimBatchSize residencyMaxEntries maxSessions : ℤ) (residencyTrackingEnabled : Bool) :
    Except String (LifecycleConfig T) :=
  if ttl : isFinite idleTtlSec = false ∨ idleTtlSec < 0 then
    .error "lifecycle_idle_ttl_sec must be a finite non-negative number"
  else if demote : isFinite cpuDemoteAfterSec = false ∨ cpuDemoteAfterSec < 0 then
    .error "lifecycle_cpu_demote_after_sec must be a finite non-negative number"
  else if watermarks : ¬ (0 < cpuLowWatermark ∧ cpuLowWatermark ≤ cpuHighWatermark ∧
      cpuHighWatermark ≤ 1) then
    .error ("lifecycle_cpu_low_watermark and lifecycle_cpu_high_watermark must satisfy " ++
      "0 < low <= high <= 1")
  else if batch : reclaimBatchSize ≤ 0 then
    .error "lifecycle_reclaim_batch_size must be greater than zero"
  else if entries : residencyMaxEntries ≤ 0 then
    .error "residency_max_entries must be greater than zero"
  else if sessions : maxSessions ≤ 0 then .error "lifecycle_max_sessions must be greater than zero"
  else .ok {
    idleTtlSec := idleTtlSec
    cpuDemoteAfterSec := cpuDemoteAfterSec
    cpuHighWatermark := cpuHighWatermark
    cpuLowWatermark := cpuLowWatermark
    reclaimBatchSize := reclaimBatchSize.toNat
    residencyMaxEntries := residencyMaxEntries.toNat
    maxSessions := maxSessions.toNat
    residencyTrackingEnabled := residencyTrackingEnabled
    idleTtlSec_nonneg := by simp only [not_or, not_lt] at ttl; exact ttl.2
    cpuDemoteAfterSec_nonneg := by simp only [not_or, not_lt] at demote; exact demote.2
    cpuLowWatermark_pos := (not_not.mp watermarks).1
    cpuLowWatermark_le := (not_not.mp watermarks).2.1
    cpuHighWatermark_le := (not_not.mp watermarks).2.2
    reclaimBatchSize_pos := toNat_pos_of_not_le batch
    residencyMaxEntries_pos := toNat_pos_of_not_le entries
    maxSessions_pos := toNat_pos_of_not_le sessions }

def enabled (config : LifecycleConfig T) : Bool :=
  config.residencyTrackingEnabled || decide (0 < config.idleTtlSec) || decide (0 < config.cpuDemoteAfterSec) ||
    decide (config.cpuHighWatermark < 1)

end LifecycleConfig

structure ExpirationResult where
  expiredSessions : ℕ
  prunedSessions : ℕ
  unreferencedKeys : Finset OffloadKey
deriving DecidableEq

/-- `ExpirationResult()`. -/
def ExpirationResult.none : ExpirationResult := ⟨0, 0, ∅⟩

/-- The parameters that may carry a conversation identifier, in the order in which they are tried. -/
def sessionParams : List String := ["session_id", "conversation_id", "kv_session_id"]

/-- `isinstance(value, str) and value`, with the value. -/
def nonEmptyStr : Option ParamValue → Option String
  | some (.str value) => if value = "" then none else some value
  | _ => none

def getSessionId (reqContext : ReqContext) : String :=
  let params := reqContext.kvTransferParams.getD .empty
  (sessionParams.findSome? fun key => nonEmptyStr (params.get? key)).getD reqContext.reqId

def hasStableSessionId (reqContext : ReqContext) : Bool :=
  let params := reqContext.kvTransferParams.getD .empty
  sessionParams.any fun key => (nonEmptyStr (params.get? key)).isSome

structure SessionLifecycleManager (T : Type) [LinearOrder T] [Zero T] [One T] where
  config : LifecycleConfig T
  residency : BlockResidencyTracker T
  sessions : Dict String (SessionKVState T)
  reqToSession : Dict String String
  nextExpirationAt : Option T

namespace SessionLifecycleManager

variable {T : Type} [LinearOrder T] [Zero T] [One T] [Add T]

def init (config : LifecycleConfig T) : SessionLifecycleManager T where
  config := config
  residency := .init config.residencyMaxEntries config.residencyMaxEntries_pos
  sessions := .empty
  reqToSession := .empty
  nextExpirationAt := none

def enabled (m : SessionLifecycleManager T) : Bool := m.config.enabled

/-- `_get_by_req`. -/
def getByReq (m : SessionLifecycleManager T) (reqContext : ReqContext) : Option (SessionKVState T) :=
  m.sessions.get? ((m.reqToSession.get? reqContext.reqId).getD (getSessionId reqContext))

/-- The deadlines that `_refresh_next_expiration` takes the minimum of. -/
def deadlines (m : SessionLifecycleManager T) : List T :=
  m.sessions.values.filterMap fun state => if state.isIdle then state.ttlDeadline else none

/-- `_refresh_next_expiration`. -/
def refreshNextExpiration (m : SessionLifecycleManager T) : SessionLifecycleManager T :=
  { m with nextExpirationAt := if m.config.idleTtlSec ≤ 0 then none else m.deadlines.min? }

/-- `_delete_state`; the status that it leaves on the object is never read. -/
def deleteState (m : SessionLifecycleManager T) (state : SessionKVState T) : SessionLifecycleManager T :=
  { m with
    sessions := m.sessions.erase state.sessionId
    reqToSession := m.reqToSession.filter fun reqId _ => reqId ∉ state.activeReqIds ∪ state.retainedReqIds }

/-- Write back a session after its fields were assigned. -/
def put (m : SessionLifecycleManager T) (state : SessionKVState T) : SessionLifecycleManager T :=
  { m with sessions := m.sessions.set state.sessionId state }

/-- `on_new_request` from its first reading of the clock on. -/
def admitRequest (m : SessionLifecycleManager T) (reqContext : ReqContext) (sessionId : String) (clock : ℕ → T) :
    SessionLifecycleManager T :=
  let now := clock 0
  let found : SessionKVState T × SessionLifecycleManager T :=
    match m.sessions.get? sessionId with
    | none => (.init sessionId (hasStableSessionId reqContext) now, m)
    | some state =>
      let state := { state with status := .active, lastAccessAt := now, ttlDeadline := none }
      (state, (m.put state).refreshNextExpiration)
  let state := { found.1 with
    activeReqIds := insert reqContext.reqId found.1.activeReqIds
    retainedReqIds := found.1.retainedReqIds.erase reqContext.reqId
    requestCount := found.1.requestCount + 1 }
  let m := found.2.put state
  { m with
    reqToSession := m.reqToSession.set reqContext.reqId sessionId
    residency := if m.enabled then m.residency.onSessionActive sessionId (clock 1) else m.residency }

def onNewRequest (m : SessionLifecycleManager T) (reqContext : ReqContext) (trackHeat : Bool) (clock : ℕ → T) :
    String × SessionLifecycleManager T :=
  let sessionId := getSessionId reqContext
  if ¬ m.enabled ∧ ¬ trackHeat then (sessionId, m)
  else (sessionId, m.admitRequest reqContext sessionId clock)

def recordReuseHit (m : SessionLifecycleManager T) (reqContext : ReqContext) (numBlocks : ℤ) (clock : ℕ → T) :
    SessionLifecycleManager T :=
  match m.getByReq reqContext with
  | none => m
  | some state =>
    let now := clock 0
    let state :=
      if state.lastReuseReqId ≠ some reqContext.reqId then
        { state with
          reuseRequestCount := state.reuseRequestCount + 1
          lastReuseReqId := some reqContext.reqId }
      else state
    m.put { state with
      reuseHitBlocks := state.reuseHitBlocks + numBlocks.toNat
      lastReuseAt := some now
      lastAccessAt := now }

/-- `_get_by_req`, after an `on_new_request` if there is no session yet. -/
def getOrNew (m : SessionLifecycleManager T) (reqContext : ReqContext) (trackHeat : Bool) (clock : ℕ → T) :
    Option (SessionKVState T) × SessionLifecycleManager T :=
  match m.getByReq reqContext with
  | some state => (some state, m)
  | none =>
    let m := (m.onNewRequest reqContext trackHeat clock).2
    (m.getByReq reqContext, m)

def recordRequestKeys (m : SessionLifecycleManager T) (reqContext : ReqContext) (keys : List OffloadKey)
    (clock : ℕ → T) : SessionLifecycleManager T :=
  if ¬ m.enabled then m
  else
    match m.getOrNew reqContext false clock with
    | (none, m) => m -- the assertion of the source: `getOrNew` has found or made a session
    | (some state, m) =>
      let m := m.put { state with
        blockKeys := state.blockKeys ∪ keys.toFinset
        lastAccessAt := clock 2 }
      { m with residency := m.residency.recordAccess state.sessionId keys (clock 3) }

/-- `_next_expiration_at` after a session was given its deadline. -/
def earlier (ttlDeadline next : Option T) : Option T :=
  match ttlDeadline, next with
  | none, next => next
  | some deadline, none => some deadline
  | some deadline, some next => if deadline < next then some deadline else some next

def onRequestFinished (m : SessionLifecycleManager T) (reqContext : ReqContext) (trackHeat : Bool)
    (clock : ℕ → T) : SessionLifecycleManager T :=
  if ¬ m.enabled ∧ ¬ trackHeat then m
  else
    match m.getOrNew reqContext trackHeat clock with
    | (none, m) => m -- as above
    | (some state, m) =>
      let now := clock 2
      let state := { state with
        activeReqIds := state.activeReqIds.erase reqContext.reqId
        retainedReqIds := insert reqContext.reqId state.retainedReqIds
        lastAccessAt := now }
      if state.activeReqIds ≠ ∅ then m.put state
      else
        let ttlDeadline := if 0 < m.config.idleTtlSec then some (now + m.config.idleTtlSec) else none
        let m := m.put { state with status := .idleRetained, ttlDeadline := ttlDeadline }
        { m with
          nextExpirationAt := earlier ttlDeadline m.nextExpirationAt
          residency := if m.enabled then m.residency.onSessionIdle state.sessionId (clock 3) else m.residency }

/-- Release a session and forget it; what becomes of every session that is removed. -/
def remove (m : SessionLifecycleManager T) (state : SessionKVState T) (now : T) :
    Finset OffloadKey × SessionLifecycleManager T :=
  let released := m.residency.releaseSession state.sessionId now
  (released.1, { m with residency := released.2 }.deleteState state)

def onRequestFinalized (m : SessionLifecycleManager T) (reqContext : ReqContext) (clock : ℕ → T) :
    SessionLifecycleManager T :=
  let found := m.getByReq reqContext
  let m := { m with reqToSession := m.reqToSession.erase reqContext.reqId }
  match found with
  | none => m
  | some state =>
    let state := { state with retainedReqIds := state.retainedReqIds.erase reqContext.reqId }
    let m := m.put state
    if state.activeReqIds ≠ ∅ ∨ state.retainedReqIds ≠ ∅ then m
    else if state.hasStableId then m
    else (m.remove state (clock 0)).2

/-- Whether the loop of `expire_idle_sessions` goes past its `continue`s. -/
def expires (now : T) (protectedKeys : Finset OffloadKey) (protectedReqIds : Finset String)
    (state : SessionKVState T) : Bool :=
  state.isIdle && state.ttlDeadline.any (fun deadline => deadline ≤ now) &&
    decide (state.blockKeys ∩ protectedKeys = ∅) && decide (state.retainedReqIds ∩ protectedReqIds = ∅)

/-- One iteration of the loop of `expire_idle_sessions`. -/
def expireOne (now : T) (protectedKeys : Finset OffloadKey) (protectedReqIds : Finset String) (clock : ℕ → T)
    (acc : ExpirationResult × SessionLifecycleManager T) (state : SessionKVState T) :
    ExpirationResult × SessionLifecycleManager T :=
  if expires now protectedKeys protectedReqIds state then
    let removed := acc.2.remove state (clock (acc.1.expiredSessions + 1))
    ({ acc.1 with
      unreferencedKeys := acc.1.unreferencedKeys ∪ removed.1
      expiredSessions := acc.1.expiredSessions + 1 }, removed.2)
  else acc

/-- The loop of `expire_idle_sessions`, over the sessions in a given order. -/
def expireLoop (now : T) (protectedKeys : Finset OffloadKey) (protectedReqIds : Finset String)
    (clock : ℕ → T) (order : List (SessionKVState T)) (m : SessionLifecycleManager T) :
    ExpirationResult × SessionLifecycleManager T :=
  order.foldl (expireOne now protectedKeys protectedReqIds clock) (.none, m)

/-- `expire_idle_sessions` from its loop on. -/
def expireDue (m : SessionLifecycleManager T) (protectedKeys : Finset OffloadKey)
    (protectedReqIds : Finset String) (clock : ℕ → T) (order : List (SessionKVState T)) :
    ExpirationResult × SessionLifecycleManager T :=
  let expired := expireLoop (clock 0) protectedKeys protectedReqIds clock order m
  (expired.1, expired.2.refreshNextExpiration)

/-- `self._next_expiration_at is None or self._next_expiration_at > now`. -/
def notDue (m : SessionLifecycleManager T) (now : T) : Bool :=
  m.nextExpirationAt.all fun next => now < next

/-- `expire_idle_sessions`, iterating over the sessions in a given order. -/
def expireIdleSessionsIn (m : SessionLifecycleManager T) (protectedKeys : Finset OffloadKey)
    (protectedReqIds : Finset String) (clock : ℕ → T) (order : List (SessionKVState T)) :
    ExpirationResult × SessionLifecycleManager T :=
  if ¬ m.enabled ∨ m.config.idleTtlSec ≤ 0 then (.none, m)
  else if m.notDue (clock 0) then (.none, m)
  else m.expireDue protectedKeys protectedReqIds clock order

/-- `expire_idle_sessions`: the order is that of `list(self._sessions.values())`. -/
def expireIdleSessions (m : SessionLifecycleManager T) (protectedKeys : Finset OffloadKey)
    (protectedReqIds : Finset String) (clock : ℕ → T) : ExpirationResult × SessionLifecycleManager T :=
  m.expireIdleSessionsIn protectedKeys protectedReqIds clock m.sessions.values

/-- The sessions that `prune_idle_sessions` may remove. -/
def prunable (state : SessionKVState T) : Bool :=
  state.isIdle && decide (state.activeReqIds = ∅) && decide (state.retainedReqIds = ∅)

/-- One iteration of the loop of `prune_idle_sessions`. -/
def pruneOne (clock : ℕ → T) (acc : ExpirationResult × SessionLifecycleManager T) (state : SessionKVState T) :
    ExpirationResult × SessionLifecycleManager T :=
  let removed := acc.2.remove state (clock acc.1.prunedSessions)
  ({ acc.1 with
    unreferencedKeys := acc.1.unreferencedKeys ∪ removed.1
    prunedSessions := acc.1.prunedSessions + 1 }, removed.2)

/-- `prune_idle_sessions`, looking at the sessions in a given order. -/
def pruneIdleSessionsIn (m : SessionLifecycleManager T) (clock : ℕ → T) (order : List (SessionKVState T)) :
    ExpirationResult × SessionLifecycleManager T :=
  let excess := m.sessions.size - m.config.maxSessions
  if excess = 0 then (.none, m)
  else
    let candidates := sortedBy (fun state => state.lastAccessAt) (order.filter prunable)
    (candidates.take excess).foldl (pruneOne clock) (.none, m)

/-- `prune_idle_sessions`: the order is that of `self._sessions.values()`. -/
def pruneIdleSessions (m : SessionLifecycleManager T) (clock : ℕ → T) :
    ExpirationResult × SessionLifecycleManager T := m.pruneIdleSessionsIn clock m.sessions.values

def getIdleCpuCandidates [Sub T] (m : SessionLifecycleManager T) (limit : ℤ) (requireIdleAge : Bool)
    (clock : ℕ → T) : List OffloadKey :=
  if requireIdleAge then
    if m.config.cpuDemoteAfterSec ≤ 0 then []
    else m.residency.getIdleCpuCandidates limit (some (clock 0 - m.config.cpuDemoteAfterSec))
  else m.residency.getIdleCpuCandidates limit none

def hasExpirationDue (m : SessionLifecycleManager T) (clock : ℕ → T) : Bool :=
  m.nextExpirationAt.any fun next => next ≤ clock 0

def hasPendingExpiration (m : SessionLifecycleManager T) : Bool := m.nextExpirationAt.isSome

def hasPendingCpuDemotion (m : SessionLifecycleManager T) : Bool :=
  decide (0 < m.config.cpuDemoteAfterSec) && m.residency.hasIdleCpuBlocks

end SessionLifecycleManager

/-- `snapshot` of the manager. -/
structure LifecycleSnapshot where
  sessions : ℕ
  activeSessions : ℕ
  idleSessions : ℕ
  retainedBlocks : ℕ
deriving DecidableEq

/-- `heat_snapshot`. -/
structure HeatSnapshot where
  reuseRequests : ℕ
  reuseHitBlocks : ℕ
deriving DecidableEq

namespace SessionLifecycleManager

variable {T : Type} [LinearOrder T] [Zero T] [One T]

/-- The block keys of some sessions. -/
def retainedBlocks (sessions : List (SessionKVState T)) : Finset OffloadKey :=
  sessions.foldl (fun keys state => keys ∪ state.blockKeys) ∅

def snapshot (m : SessionLifecycleManager T) : LifecycleSnapshot where
  sessions := m.sessions.size
  activeSessions := m.sessions.values.countP fun state => state.status = .active
  idleSessions := m.sessions.values.countP fun state => state.status = .idleRetained
  retainedBlocks := (retainedBlocks m.sessions.values).card

def heatSnapshot (m : SessionLifecycleManager T) : HeatSnapshot where
  reuseRequests := (m.sessions.values.map fun state => state.reuseRequestCount).sum
  reuseHitBlocks := (m.sessions.values.map fun state => state.reuseHitBlocks).sum

/-- `get_session_heat`: the request count, and the estimate of the probability that the session returns. -/
def getSessionHeat (m : SessionLifecycleManager T) (reqContext : ReqContext) : ℕ × ℚ :=
  match m.getByReq reqContext with
  | none => (0, 0)
  | some state =>
    if state.requestCount = 0 then (0, 0)
    else (state.requestCount, ((state.requestCount : ℚ) - 1) / state.requestCount)

end SessionLifecycleManager

/-- The calls made to the manager, and to its tracker directly. -/
inductive LifecycleCall (T : Type) where
  | onNewRequest (reqContext : ReqContext) (trackHeat : Bool) (clock : ℕ → T)
  | recordReuseHit (reqContext : ReqContext) (numBlocks : ℤ) (clock : ℕ → T)
  | recordRequestKeys (reqContext : ReqContext) (keys : List OffloadKey) (clock : ℕ → T)
  | onRequestFinished (reqContext : ReqContext) (trackHeat : Bool) (clock : ℕ → T)
  | onRequestFinalized (reqContext : ReqContext) (clock : ℕ → T)
  | expireIdleSessions (protectedKeys : Finset OffloadKey) (protectedReqIds : Finset String) (clock : ℕ → T)
  | pruneIdleSessions (clock : ℕ → T)
  | residency (call : ResidencyCall T)

namespace SessionLifecycleManager

variable {T : Type} [LinearOrder T] [Zero T] [One T] [Add T]

def call (m : SessionLifecycleManager T) : LifecycleCall T → SessionLifecycleManager T
  | .onNewRequest reqContext trackHeat clock => (m.onNewRequest reqContext trackHeat clock).2
  | .recordReuseHit reqContext numBlocks clock => m.recordReuseHit reqContext numBlocks clock
  | .recordRequestKeys reqContext keys clock => m.recordRequestKeys reqContext keys clock
  | .onRequestFinished reqContext trackHeat clock => m.onRequestFinished reqContext trackHeat clock
  | .onRequestFinalized reqContext clock => m.onRequestFinalized reqContext clock
  | .expireIdleSessions protectedKeys protectedReqIds clock =>
    (m.expireIdleSessions protectedKeys protectedReqIds clock).2
  | .pruneIdleSessions clock => (m.pruneIdleSessions clock).2
  | .residency call => { m with residency := m.residency.call call }

/-- The manager after a sequence of calls. -/
def after (config : LifecycleConfig T) (calls : List (LifecycleCall T)) : SessionLifecycleManager T :=
  calls.foldl call (init config)

/-- What holds at first and is kept by every call holds after every sequence of calls. -/
theorem after_induction (holds : SessionLifecycleManager T → Prop) (config : LifecycleConfig T)
    (initially : holds (init config)) (preserved : ∀ m c, holds m → holds (m.call c))
    (calls : List (LifecycleCall T)) : holds (after config calls) := by
  induction calls using List.reverseRecOn with
  | nil => exact initially
  | append_singleton calls last ih =>
    rw [after, List.foldl_concat]
    exact preserved _ last ih

end SessionLifecycleManager

end KVTiering.Model
