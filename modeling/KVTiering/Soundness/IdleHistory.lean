import KVTiering.Machine.Since
import KVTiering.Soundness.Expiration
import KVTiering.Soundness.OwnershipIndex

/-! # What expiration and demotion go by

A deadline and an idle mark are times that an earlier call has left behind. A session expires only after it has
had no active request for its time to live, counted from the call that finished its last one; a block is demoted
by age only after none of its sessions has had one, counted from the call in which the last of them left.
-/

namespace KVTiering.Soundness

namespace BlockResidencyTracker

open Model Model.BlockResidencyTracker

variable {T : Type} {t : BlockResidencyTracker T} {key : OffloadKey} {since now : T}

/-! ## What sets an idle mark -/

theorem marked_of_mapValues {change : OffloadKey → BlockResidencyState T → BlockResidencyState T}
    (marked : idleOf { t with blocks := t.blocks.mapValues change } key = some since) :
    ∃ state, t.blocks.get? key = some state ∧ (change key state).idleSince = some since := by
  cases found : t.blocks.get? key with
  | none => simp [idleOf, fieldOf, found] at marked
  | some state => exact ⟨state, rfl, by simpa [idleOf, fieldOf, found] using marked⟩

theorem marked_of_onSessionActive {sessionId : String}
    (marked : idleOf (t.onSessionActive sessionId now) key = some since) : idleOf t key = some since := by
  obtain ⟨state, found, same⟩ := marked_of_mapValues (t := t) marked
  rw [idleOf_of_get? found]
  split at same
  · cases same
  · exact same

theorem marked_of_onSessionIdle {sessionId : String}
    (marked : idleOf (t.onSessionIdle sessionId now) key = some since) : idleOf t key = some since ∨ now = since := by
  obtain ⟨state, found, same⟩ := marked_of_mapValues (t := t) marked
  rw [idleOf_of_get? found]
  split at same
  · exact .inr (Option.some.inj same)
  · exact .inl same

theorem marked_of_recordAccess {sessionId : String} {keys : List OffloadKey}
    (marked : idleOf (t.recordAccess sessionId keys now) key = some since) : idleOf t key = some since := by
  by_cases active : sessionId ∈ t.activeSessions
  · by_cases member : key ∈ keys
    · rw [idleOf_recordAccess_active t active keys now member] at marked
      cases marked
    · rwa [idleOf_recordAccess t sessionId keys now key (.inr member)] at marked
  · rwa [idleOf_recordAccess t sessionId keys now key (.inl active)] at marked

variable [LinearOrder T] [Zero T]

/-- A mark that is there is kept, unless it is zero. -/
theorem marked_of_releaseSession {sessionId : String}
    (marked : idleOf (t.releaseSession sessionId now).2 key = some since) :
    idleOf t key = some since ∨ now = since := by
  have rewritten := get?_releaseSession t sessionId now key
  cases found : t.blocks.get? key with
  | none => simp [idleOf, fieldOf, rewritten, found] at marked
  | some state =>
    rw [found, Option.map_some] at rewritten
    rw [idleOf_of_get? rewritten] at marked
    rw [idleOf_of_get? found]
    split at marked
    · rw [released] at marked
      dsimp only at marked
      split at marked
      · cases before : state.idleSince with
        | none =>
          rw [before] at marked
          exact .inr (Option.some.inj marked)
        | some time =>
          rw [before, orElseTime] at marked
          split at marked
          · exact .inr (Option.some.inj marked)
          · exact .inl marked
      · exact .inl marked
    · exact .inl marked

/-- Other components set no mark; only pruning takes marks away, with the blocks. -/
theorem marked_of_call {call : ResidencyCall T} (marked : idleOf (t.call call) key = some since) :
    idleOf t key = some since := by
  have loop : ∀ {keys : List OffloadKey} {now : T} {change : BlockResidencyState T → BlockResidencyState T},
      idleOf (keys.foldl (fun t key => t.touch key now change) t) key = some since →
        (∀ state, (change state).idleSince = state.idleSince) → idleOf t key = some since := by
    intro keys now change marked kept
    rw [← marked]
    exact (fieldOf_foldl (fun t value other => fieldOf_touch (fun _ _ => rfl) value now kept other) keys key).symm
  cases call with
  | markCpuResident keys resident now => exact loop marked fun _ => rfl
  | markSecondaryResident keys tier resident now => exact loop marked fun _ => rfl
  | startTransfer keys source target now => exact loop marked fun _ => rfl
  | finishTransfer keys source target =>
    rw [← marked]
    exact (fieldOf_finishTransfer (fun _ _ => rfl) keys source target key).symm
  | clearCpuResidency =>
    obtain ⟨state, found, same⟩ := marked_of_mapValues (t := t) marked
    rw [idleOf_of_get? found, ← same]
  | prune =>
    simp only [Model.BlockResidencyTracker.call, prune] at marked
    split at marked
    · exact marked
    · simp only [idleOf, fieldOf, Dict.get?_eraseAll] at marked
      split at marked
      · cases marked
      · exact marked

theorem invariant_marked : Invariant fun t : BlockResidencyTracker T => Indexed t ∧ MarkedIdle t where
  active _ _ _ := fun ⟨indexed, marked⟩ =>
    ⟨(onSessionActive_spec indexed _ _).1, markedIdle_onSessionActive indexed marked _ _⟩
  idle _ _ _ := fun ⟨indexed, marked⟩ => ⟨(onSessionIdle_spec indexed _ _).1, markedIdle_onSessionIdle marked _ _⟩
  release _ _ _ := fun ⟨indexed, marked⟩ =>
    ⟨(releaseSession_spec indexed _ _).1, markedIdle_releaseSession marked _ _⟩
  call _ call := fun ⟨indexed, marked⟩ =>
    ⟨(sameIndex_call indexed.named call).indexed indexed, markedIdle_call indexed.named marked call⟩

/-- A candidate for demotion has a mark that is old enough. -/
theorem idleOf_of_candidate (named : Named t) {limit : ℤ} {idleBefore : Option T}
    (member : key ∈ t.getIdleCpuCandidates limit idleBefore) :
    ∃ since, idleOf t key = some since ∧ ∀ before ∈ idleBefore, since ≤ before := by
  obtain ⟨state, chosen, rfl⟩ := List.mem_map.mp member
  have candidate := mem_of_mem_sliceTo chosen
  simp only [mem_sortedBy, List.mem_filter, Bool.and_eq_true, decide_eq_true_eq] at candidate
  obtain ⟨inside, ⟨_, marked⟩, old⟩ := candidate
  obtain ⟨key, found⟩ := Dict.mem_values_iff.mp inside
  obtain ⟨since, same⟩ := Option.isSome_iff_exists.mp marked
  refine ⟨since, ?_, fun before limited => old before limited since same⟩
  rw [named key state found, idleOf_of_get? found, same]

end BlockResidencyTracker

namespace SessionLifecycleManager

open Model Model.SessionLifecycleManager BlockResidencyTracker

variable {T : Type} [LinearOrder T] [Zero T] [One T] {m : SessionLifecycleManager T}

/-! ## Deadlines -/

/-- The session has no active request, and a deadline. -/
def Resting (sessionId : String) (deadline : T) (m : SessionLifecycleManager T) : Prop :=
  ∃ state, m.sessions.get? sessionId = some state ∧ state.activeReqIds = ∅ ∧ state.ttlDeadline = some deadline

variable {sessionId : String} {deadline : T}

theorem resting_of_onNewRequest (stored : Stored m.sessions) {reqContext : ReqContext} {trackHeat : Bool}
    {clock : ℕ → T} (resting : Resting sessionId deadline (m.onNewRequest reqContext trackHeat clock).2) :
    Resting sessionId deadline m := by
  by_cases on : m.enabled = true ∨ trackHeat = true
  · obtain ⟨state, found, idle, timed⟩ := resting
    rw [(onNewRequest_spec stored reqContext trackHeat clock on).2.1] at found
    split at found
    · obtain rfl := Option.some.inj found
      rw [(admitted_fields m reqContext (clock 0) stored).2.2.2.1] at timed
      cases timed
    · exact ⟨state, found, idle, timed⟩
  · have off : ¬ m.enabled = true ∧ ¬ trackHeat = true := by tauto
    rwa [onNewRequest, if_pos off] at resting

theorem resting_of_put {state : SessionKVState T} (resting : Resting sessionId deadline (m.put state)) :
    Resting sessionId deadline m ∨
      state.sessionId = sessionId ∧ state.activeReqIds = ∅ ∧ state.ttlDeadline = some deadline := by
  obtain ⟨found, known, idle, timed⟩ := resting
  rw [put, Dict.get?_set] at known
  split at known
  · next same =>
    obtain rfl := Option.some.inj known
    exact .inr ⟨same.symm, idle, timed⟩
  · exact .inl ⟨found, known, idle, timed⟩

/-- A session is rewritten that rested as much before. -/
theorem resting_of_rewritten {old : SessionKVState T} (found : m.sessions.get? old.sessionId = some old)
    (state : SessionKVState T) (sessionId' : state.sessionId = old.sessionId)
    (activeReqIds : state.activeReqIds = old.activeReqIds)
    (ttlDeadline : state.ttlDeadline = old.ttlDeadline) (resting : Resting sessionId deadline (m.put state)) :
    Resting sessionId deadline m := by
  rcases resting_of_put resting with before | ⟨same, idle, timed⟩
  · exact before
  · exact ⟨old, by rw [← same, sessionId', found], activeReqIds ▸ idle, ttlDeadline ▸ timed⟩

theorem resting_of_remove {state : SessionKVState T} {now : T}
    (resting : Resting sessionId deadline (m.remove state now).2) : Resting sessionId deadline m := by
  obtain ⟨found, known, rest⟩ := resting
  change (m.sessions.erase state.sessionId).get? sessionId = some found at known
  rw [Dict.get?_erase] at known
  split at known
  · cases known
  · exact ⟨found, known, rest⟩

/-- What `getOrNew` returns, for a session that rests afterwards. -/
theorem resting_of_getOrNew (stored : Stored m.sessions) (reqContext : ReqContext) (trackHeat : Bool) (clock : ℕ → T)
    (on : m.enabled = true ∨ trackHeat = true) (sessionId : String) (deadline : T) : ∃ state m',
      m.getOrNew reqContext trackHeat clock = (some state, m') ∧ m'.config = m.config ∧
        m'.sessions.get? state.sessionId = some state ∧
        (Resting sessionId deadline m' → Resting sessionId deadline m) := by
  obtain ⟨state, found, known, same | same⟩ := getOrNew_spec stored reqContext trackHeat clock on
  · exact ⟨state, m, Prod.ext found same, rfl, same ▸ known, id⟩
  · rw [same] at known
    exact ⟨state, _, Prod.ext found same, config_onNewRequest m reqContext trackHeat clock, known,
      resting_of_onNewRequest stored⟩

/-- A deadline is set by `on_request_finished` and by no other call. -/
theorem resting_of_call [Add T] (stored : Stored m.sessions) {call : LifecycleCall T}
    (resting : Resting sessionId deadline (m.call call)) : Resting sessionId deadline m ∨
      ∃ reqContext trackHeat clock, call = .onRequestFinished reqContext trackHeat clock ∧
        0 < m.config.idleTtlSec ∧ deadline = clock 2 + m.config.idleTtlSec := by
  cases call with
  | onNewRequest => exact .inl (resting_of_onNewRequest stored resting)
  | recordReuseHit reqContext numBlocks clock =>
    left
    obtain ⟨state, found, idle, timed⟩ := resting
    rw [Model.SessionLifecycleManager.call, recordReuseHit_spec stored] at found
    split at found
    · obtain ⟨old, known, rfl⟩ := Option.map_eq_some_iff.mp found
      exact ⟨old, known, idle, timed⟩
    · exact ⟨state, found, idle, timed⟩
  | recordRequestKeys reqContext keys clock =>
    left
    rw [Model.SessionLifecycleManager.call, recordRequestKeys] at resting
    split at resting
    · exact resting
    · next on =>
      obtain ⟨state, m', got, _, known, before⟩ :=
        resting_of_getOrNew stored reqContext false clock (.inl (not_not.mp on)) sessionId deadline
      rw [got] at resting
      exact before (resting_of_rewritten (m := m') known { state with
        blockKeys := state.blockKeys ∪ keys.toFinset
        lastAccessAt := clock 2 } rfl rfl rfl resting)
  | onRequestFinished reqContext trackHeat clock =>
    rw [Model.SessionLifecycleManager.call, onRequestFinished] at resting
    split at resting
    · exact .inl resting
    · next on =>
      obtain ⟨state, m', got, config, known, before⟩ :=
        resting_of_getOrNew stored reqContext trackHeat clock (by tauto) sessionId deadline
      rw [got] at resting
      dsimp only at resting
      split at resting
      · next busy =>
        rcases resting_of_put resting with earlier | ⟨_, idle, _⟩
        · exact .inl (before earlier)
        · exact absurd idle busy
      · next last =>
        have written : Resting sessionId deadline (m'.put { state with
            activeReqIds := state.activeReqIds.erase reqContext.reqId
            retainedReqIds := insert reqContext.reqId state.retainedReqIds
            lastAccessAt := clock 2
            status := .idleRetained
            ttlDeadline := if 0 < m'.config.idleTtlSec then some (clock 2 + m'.config.idleTtlSec) else none }) :=
          resting
        rcases resting_of_put written with earlier | ⟨_, _, timed⟩
        · exact .inl (before earlier)
        · rw [config] at timed
          dsimp only at timed
          split at timed
          · next positive => exact .inr ⟨reqContext, trackHeat, clock, rfl, positive, (Option.some.inj timed).symm⟩
          · cases timed
  | onRequestFinalized reqContext clock =>
    left
    rw [Model.SessionLifecycleManager.call, onRequestFinalized] at resting
    cases found : m.getByReq reqContext with
    | none =>
      rw [found] at resting
      exact resting
    | some state =>
      have known := get?_of_getByReq stored found
      have rewritten : Resting sessionId deadline (Model.SessionLifecycleManager.put
          { m with reqToSession := m.reqToSession.erase reqContext.reqId }
          { state with retainedReqIds := state.retainedReqIds.erase reqContext.reqId }) := by
        rw [found] at resting
        dsimp only at resting
        split at resting
        · exact resting
        · split at resting
          · exact resting
          · exact resting_of_remove resting
      exact resting_of_rewritten (m := { m with reqToSession := m.reqToSession.erase reqContext.reqId }) known
        { state with retainedReqIds := state.retainedReqIds.erase reqContext.reqId } rfl rfl rfl rewritten
  | expireIdleSessions protectedKeys protectedReqIds clock =>
    left
    simp only [Model.SessionLifecycleManager.call, expireIdleSessions, expireIdleSessionsIn] at resting
    split at resting
    · exact resting
    · split at resting
      · exact resting
      · refine List.foldlRecOn m.sessions.values (expireOne (clock 0) protectedKeys protectedReqIds clock)
          (motive := fun (acc : ExpirationResult × SessionLifecycleManager T) =>
            Resting sessionId deadline acc.2 → Resting sessionId deadline m) id
          (fun acc before state _ later => ?_) resting
        unfold expireOne at later
        split at later
        · exact before (resting_of_remove later)
        · exact before later
  | pruneIdleSessions clock =>
    left
    simp only [Model.SessionLifecycleManager.call, pruneIdleSessions, pruneIdleSessionsIn] at resting
    split at resting
    · exact resting
    · exact List.foldlRecOn _ _ (motive := fun (acc : ExpirationResult × SessionLifecycleManager T) =>
        Resting sessionId deadline acc.2 → Resting sessionId deadline m) id
        (fun acc before state _ later => before (resting_of_remove later)) resting
  | residency => exact .inl resting

/-- A session expires only because of the call that finished its last request: it has had no active request since,
and that is its time to live ago. It does expire then, unless one of its keys or requests is protected. -/
theorem expired_since [Add T] (config : LifecycleConfig T) (enabled : config.enabled = true)
    (calls : List (LifecycleCall T)) {state : SessionKVState T}
    (found : (after config calls).sessions.get? sessionId = some state) (protectedKeys : Finset OffloadKey)
    (protectedReqIds : Finset String) (clock : ℕ → T) :
    ((after config calls).expireIdleSessions protectedKeys protectedReqIds clock).2.sessions.get? sessionId = none ↔
      ((∀ key ∈ state.blockKeys, key ∉ protectedKeys) ∧ ∀ reqId ∈ state.retainedReqIds, reqId ∉ protectedReqIds) ∧
        ∃ before reqContext trackHeat readings later,
          calls = before ++ .onRequestFinished reqContext trackHeat readings :: later ∧
          HeldSince Model.SessionLifecycleManager.call (init config)
            (Resting sessionId (readings 2 + config.idleTtlSec)) before
            (.onRequestFinished reqContext trackHeat readings) later ∧
          readings 2 + config.idleTtlSec ≤ clock 0 := by
  have coherent : Coherent (after config calls).sessions (after config calls).residency := coherent_after enabled calls
  have on : (after config calls).enabled = true := by rw [Model.SessionLifecycleManager.enabled, config_after, enabled]
  obtain ⟨-, removed⟩ := expireIdleSessionsIn_spec coherent (gated_after config calls) on protectedKeys protectedReqIds
    clock (List.Perm.refl _)
  rw [expireIdleSessions, removed sessionId state found, expires_iff, Finset.disjoint_left, Finset.disjoint_left]
  constructor
  · rintro ⟨idle, ⟨deadline, timed, due⟩, keys, requests⟩
    refine ⟨⟨fun key member => keys member, fun reqId member => requests member⟩, ?_⟩
    have resting : Resting sessionId deadline (calls.foldl Model.SessionLifecycleManager.call (init config)) := by
      refine ⟨state, found, ?_, timed⟩
      rcases coherent.status sessionId state found with ⟨active, _⟩ | ⟨_, none⟩
      · rw [idle] at active
        cases active
      · exact none
    have initially : ¬ Resting sessionId deadline (init config) := by
      rintro ⟨_, absent, _⟩
      cases absent
    obtain ⟨before, event, later, same, held⟩ := exists_heldSince initially resting
    obtain ⟨began, turned⟩ := held.turned
    obtain ⟨reqContext, trackHeat, readings, rfl, -, rfl⟩ :=
      (resting_of_call (consistent_after config before).stored turned).resolve_left began
    rw [config_after] at held due
    exact ⟨before, reqContext, trackHeat, readings, later, same, held, due⟩
  · rintro ⟨⟨keys, requests⟩, before, reqContext, trackHeat, readings, later, rfl, held, due⟩
    obtain ⟨resting, known, idle, timed⟩ := held.now
    have same : resting = state := Option.some.inj (known.symm.trans found)
    rw [same] at idle timed
    refine ⟨?_, ⟨_, timed, due⟩, fun key => keys key, fun reqId => requests reqId⟩
    rcases coherent.status sessionId state found with ⟨_, busy⟩ | ⟨status, _⟩
    · exact absurd idle busy
    · exact status

/-- The first session of the two has rested for its ten units. -/
theorem expired_since_sharedCalls : ∃ before reqContext trackHeat readings later,
    sharedCalls = before ++ .onRequestFinished reqContext trackHeat readings :: later ∧
      HeldSince Model.SessionLifecycleManager.call (init tenUnits) (Resting "s1" (readings 2 + tenUnits.idleTtlSec))
        before (.onRequestFinished reqContext trackHeat readings) later ∧ readings 2 + tenUnits.idleTtlSec ≤ 20 := by
  have known : ((after tenUnits sharedCalls).sessions.get? "s1").isSome = true := by decide
  have gone : ((after tenUnits sharedCalls).expireIdleSessions ∅ ∅ fun _ => 20).2.sessions.get? "s1" = none := by
    have absent : (((after tenUnits sharedCalls).expireIdleSessions ∅ ∅ fun _ => 20).2.sessions.get? "s1").isNone =
      true := by decide
    exact Option.isNone_iff_eq_none.mp absent
  obtain ⟨state, found⟩ := Option.isSome_iff_exists.mp known
  exact ((expired_since tenUnits (by decide) sharedCalls found ∅ ∅ fun _ => 20).mp gone).2

/-! ## Idle marks -/

/-- The clock of the calls that can leave a block without an active session. -/
def settling : LifecycleCall T → Option (ℕ → T)
  | .onRequestFinished _ _ clock => some clock
  | .onRequestFinalized _ clock => some clock
  | .expireIdleSessions _ _ clock => some clock
  | .pruneIdleSessions clock => some clock
  | _ => none

variable {key : OffloadKey} {since : T}

theorem marked_of_onNewRequest (stored : Stored m.sessions) {reqContext : ReqContext} {trackHeat : Bool} {clock : ℕ → T}
    (marked : idleOf (m.onNewRequest reqContext trackHeat clock).2.residency key = some since) :
    idleOf m.residency key = some since := by
  by_cases on : m.enabled = true ∨ trackHeat = true
  · obtain ⟨_, _, _, residency, _⟩ := onNewRequest_spec stored reqContext trackHeat clock on
    rw [residency] at marked
    split at marked
    · exact marked_of_onSessionActive marked
    · exact marked
  · have off : ¬ m.enabled = true ∧ ¬ trackHeat = true := by tauto
    rwa [onNewRequest, if_pos off] at marked

theorem marked_of_getOrNew (stored : Stored m.sessions) {reqContext : ReqContext} {trackHeat : Bool} {clock : ℕ → T}
    (marked : idleOf (m.getOrNew reqContext trackHeat clock).2.residency key = some since) :
    idleOf m.residency key = some since := by
  unfold getOrNew at marked
  split at marked
  · exact marked
  · exact marked_of_onNewRequest stored marked

/-- A mark is as old as one of the calls that can set it: it is a time that the call read. -/
theorem marked_of_lifecycleCall [Add T] (stored : Stored m.sessions) {call : LifecycleCall T}
    (marked : idleOf (m.call call).residency key = some since) :
    idleOf m.residency key = some since ∨ ∃ clock i, settling call = some clock ∧ clock i = since := by
  cases call with
  | onNewRequest => exact .inl (marked_of_onNewRequest stored marked)
  | recordReuseHit =>
    left
    rw [Model.SessionLifecycleManager.call, recordReuseHit] at marked
    split at marked <;> exact marked
  | recordRequestKeys reqContext keys clock =>
    left
    rw [Model.SessionLifecycleManager.call, recordRequestKeys] at marked
    split at marked
    · exact marked
    · split at marked
      · next got => exact marked_of_getOrNew stored (by rwa [got])
      · next got => exact marked_of_getOrNew stored (by rw [got]; exact marked_of_recordAccess marked)
  | onRequestFinished reqContext trackHeat clock =>
    rw [Model.SessionLifecycleManager.call, onRequestFinished] at marked
    split at marked
    · exact .inl marked
    · split at marked
      · next got => exact .inl (marked_of_getOrNew stored (by rwa [got]))
      · next state m' got =>
        have before : idleOf m'.residency key = some since → idleOf m.residency key = some since := by
          intro earlier
          exact marked_of_getOrNew stored (by rwa [got])
        dsimp only at marked
        split at marked
        · exact .inl (before marked)
        · change idleOf (if m'.enabled then m'.residency.onSessionIdle state.sessionId (clock 3) else m'.residency)
            key = some since at marked
          split at marked
          · rcases marked_of_onSessionIdle marked with earlier | now
            · exact .inl (before earlier)
            · exact .inr ⟨clock, 3, rfl, now⟩
          · exact .inl (before marked)
  | onRequestFinalized reqContext clock =>
    rw [Model.SessionLifecycleManager.call, onRequestFinalized] at marked
    split at marked
    · exact .inl marked
    · dsimp only at marked
      split at marked
      · exact .inl marked
      · split at marked
        · exact .inl marked
        · rcases marked_of_releaseSession marked with earlier | now
          · exact .inl earlier
          · exact .inr ⟨clock, 0, rfl, now⟩
  | expireIdleSessions protectedKeys protectedReqIds clock =>
    simp only [Model.SessionLifecycleManager.call, expireIdleSessions, expireIdleSessionsIn] at marked
    split at marked
    · exact .inl marked
    · split at marked
      · exact .inl marked
      · refine List.foldlRecOn m.sessions.values (expireOne (clock 0) protectedKeys protectedReqIds clock)
          (motive := fun (acc : ExpirationResult × SessionLifecycleManager T) =>
            idleOf acc.2.residency key = some since → idleOf m.residency key = some since ∨ _) .inl
          (fun acc before state _ later => ?_) marked
        unfold expireOne at later
        split at later
        · rcases marked_of_releaseSession later with earlier | now
          · exact before earlier
          · exact .inr ⟨clock, _, rfl, now⟩
        · exact before later
  | pruneIdleSessions clock =>
    simp only [Model.SessionLifecycleManager.call, pruneIdleSessions, pruneIdleSessionsIn] at marked
    split at marked
    · exact .inl marked
    · refine List.foldlRecOn _ _ (motive := fun (acc : ExpirationResult × SessionLifecycleManager T) =>
        idleOf acc.2.residency key = some since → idleOf m.residency key = some since ∨ _) .inl
        (fun acc before state _ later => ?_) marked
      rcases marked_of_releaseSession later with earlier | now
      · exact before earlier
      · exact .inr ⟨clock, _, rfl, now⟩
  | residency => exact .inl (marked_of_call marked)

/-- The block has its mark, and no session that owns it has an active request. -/
def IdleAt (key : OffloadKey) (since : T) (m : SessionLifecycleManager T) : Prop :=
  ∃ block, m.residency.blocks.get? key = some block ∧ block.idleSince = some since ∧
    ∀ sessionId ∈ block.sessionIds, ¬ HasActiveRequest m sessionId

/-- No block is marked beside a session that the tracker takes for active. -/
theorem marked_after [Add T] (config : LifecycleConfig T) (calls : List (LifecycleCall T)) :
    Indexed (after config calls).residency ∧ MarkedIdle (after config calls).residency := by
  refine after_induction (fun m => Indexed m.residency ∧ MarkedIdle m.residency) config
    ⟨indexed_init _ _, fun _ idle => nomatch idle⟩ (fun m call kept => ?_) calls
  refine residency_call invariant_marked call (fun reqContext keys clock _ => ?_) kept
  have got := residency_getOrNew invariant_marked kept reqContext false clock
  unfold recordRequestKeys
  split
  · exact kept
  · split
    · next found =>
      rw [found] at got
      exact got
    · next found =>
      rw [found] at got
      exact ⟨(recordAccess_spec got.1 _ _ _).1, markedIdle_recordAccess got.1.named got.2 _ _ _⟩

theorem idleAt_iff (coherent : Coherent m.sessions m.residency) (marked : MarkedIdle m.residency) :
    IdleAt key since m ↔ idleOf m.residency key = some since := by
  constructor
  · rintro ⟨block, found, same, _⟩
    rw [idleOf_of_get? found, same]
  · intro same
    have apart := marked key (Option.isSome_iff_exists.mpr ⟨since, same⟩)
    cases found : m.residency.blocks.get? key with
    | none => simp [idleOf, fieldOf, found] at same
    | some block =>
      rw [idleOf_of_get? found] at same
      rw [owners_of_get? found] at apart
      refine ⟨block, found, same, fun sessionId owner active => ?_⟩
      exact Finset.disjoint_left.mp apart owner ((mem_activeSessions_iff coherent).mpr active)

/-- A block is offered by age only because of the call in which the last of its sessions was left: a finished,
finalized, expired or pruned one. None of its sessions has had an active request since, and the time that the call
read is at least the age that demotion asks for ago. -/
theorem candidate_since [Add T] [Sub T] (config : LifecycleConfig T) (enabled : config.enabled = true)
    (calls : List (LifecycleCall T)) {limit : ℤ} {clock : ℕ → T}
    (member : key ∈ (after config calls).getIdleCpuCandidates limit true clock) :
    ∃ before event later readings i, calls = before ++ event :: later ∧ settling event = some readings ∧
      HeldSince Model.SessionLifecycleManager.call (init config) (IdleAt key (readings i)) before event later ∧
      0 < config.cpuDemoteAfterSec ∧ readings i ≤ clock 0 - config.cpuDemoteAfterSec := by
  have coherentAt : ∀ past, Coherent (after config past).sessions (after config past).residency :=
    fun past => coherent_after enabled past
  rw [Model.SessionLifecycleManager.getIdleCpuCandidates, if_pos rfl, config_after] at member
  split at member
  · cases member
  · next positive =>
    obtain ⟨since, marked, old⟩ := idleOf_of_candidate (marked_after config calls).1.named member
    have idle : IdleAt key since (calls.foldl Model.SessionLifecycleManager.call (init config)) :=
      (idleAt_iff (coherentAt calls) (marked_after config calls).2).mpr marked
    have initially : ¬ IdleAt key since (init config) := by
      rintro ⟨_, absent, _⟩
      cases absent
    obtain ⟨before, event, later, rfl, held⟩ := exists_heldSince initially idle
    obtain ⟨began, turned⟩ := held.turned
    have stepped : (before.foldl Model.SessionLifecycleManager.call (init config)).call event =
        after config (before ++ [event]) := by rw [after, List.foldl_concat]
    rw [stepped, idleAt_iff (coherentAt _) (marked_after config _).2, ← stepped] at turned
    have unmarked : idleOf (after config before).residency key ≠ some since := fun earlier =>
      began ((idleAt_iff (coherentAt before) (marked_after config before).2).mpr earlier)
    obtain ⟨readings, i, settles, rfl⟩ :=
      (marked_of_lifecycleCall (consistent_after config before).stored turned).resolve_left unmarked
    exact ⟨before, event, later, readings, i, rfl, settles, held, not_le.mp positive, old _ rfl⟩

/-- Blocks are demoted after five units. -/
def fiveUnits : LifecycleConfig ℤ :=
  { tenUnits with cpuDemoteAfterSec := 5, cpuDemoteAfterSec_nonneg := by decide }

/-- The block of the finished request is offered, the one that it shares with the other request is not. -/
theorem candidate_since_sharedCalls : ∃ before event later readings i,
    sharedCalls = before ++ event :: later ∧ settling event = some readings ∧
      HeldSince Model.SessionLifecycleManager.call (init fiveUnits) (IdleAt [1] (readings i)) before event later ∧
      0 < fiveUnits.cpuDemoteAfterSec ∧ readings i ≤ 9 - fiveUnits.cpuDemoteAfterSec :=
  candidate_since fiveUnits (by decide) sharedCalls
    (show [1] ∈ (after fiveUnits sharedCalls).getIdleCpuCandidates 8 true fun _ => 9 by decide)

end SessionLifecycleManager

end KVTiering.Soundness
