import KVTiering.Soundness.SessionSteps

/-! # Pruning sessions

`prune_idle_sessions` removes the least recently used of the sessions without a request, as many as there
are too many. Such a session has no request mapping to take along, and releasing it leaves the keys of every
other session alone, so the loop is followed by what is left: the other sessions, all request mappings, and
the blocks of the other sessions.
-/

namespace KVTiering.Soundness

open Model

namespace SessionLifecycleManager

open Model.SessionLifecycleManager BlockResidencyTracker

variable {T : Type}

theorem prunable_iff {state : SessionKVState T} : prunable state = true ↔
    state.status = .idleRetained ∧ state.activeReqIds = ∅ ∧ state.retainedReqIds = ∅ := by
  simp [prunable, SessionKVState.isIdle, and_assoc]

variable [LinearOrder T] [Zero T] [One T] {m : SessionLifecycleManager T}

/-- The sessions that are removed, in the order in which they are. -/
def victims (m : SessionLifecycleManager T) : List (SessionKVState T) :=
  (sortedBy (fun state => state.lastAccessAt) (m.sessions.values.filter prunable)).take
    (m.sessions.size - m.config.maxSessions)

theorem pruneIdleSessions_eq (m : SessionLifecycleManager T) (clock : ℕ → T) :
    m.pruneIdleSessions clock = (victims m).foldl (pruneOne clock) (.none, m) := by
  simp only [pruneIdleSessions, pruneIdleSessionsIn, victims]
  split
  · next none => rw [none, List.take_zero, List.foldl_nil]
  · rfl

theorem mem_of_mem_victims {state : SessionKVState T} (member : state ∈ victims m) :
    state ∈ m.sessions.values ∧ prunable state = true := by
  simpa only [mem_sortedBy, List.mem_filter] using List.mem_of_mem_take member

theorem nodup_victims (stored : Stored m.sessions) : ((victims m).map fun state => state.sessionId).Nodup := by
  have eligible := (nodup_sessionIds stored).sublist
    ((List.filter_sublist (p := prunable)).map fun state => state.sessionId)
  have sorted := perm_sortedBy (fun state : SessionKVState T => state.lastAccessAt)
    (m.sessions.values.filter prunable)
  exact ((sorted.map _).nodup_iff.mpr eligible).sublist ((List.take_sublist _ _).map _)

theorem length_victims (m : SessionLifecycleManager T) : (victims m).length =
    min (m.sessions.size - m.config.maxSessions) (m.sessions.values.filter prunable).length := by
  rw [victims, List.length_take, (perm_sortedBy _ _).length_eq]

/-- A manager without some of the sessions that another one had, and without any other change. -/
structure Without (start : SessionLifecycleManager T) (gone : List String) (m : SessionLifecycleManager T) :
    Prop where
  sessions : ∀ sessionId, m.sessions.get? sessionId =
    if sessionId ∈ gone then none else start.sessions.get? sessionId
  size : m.sessions.size + gone.length = start.sessions.size
  reqToSession : ∀ reqId, m.reqToSession.get? reqId = start.reqToSession.get? reqId
  indexed : Indexed m.residency
  sessionKeys : ∀ sessionId, sessionId ∉ gone →
    m.residency.getSessionKeys sessionId = start.residency.getSessionKeys sessionId

/-- A session without requests is removed. -/
theorem Without.remove {start : SessionLifecycleManager T} {gone : List String} (without : Without start gone m)
    {state : SessionKVState T} (found : m.sessions.get? state.sessionId = some state)
    (eligible : prunable state = true) (now : T) :
    Without start (gone ++ [state.sessionId]) (m.remove state now).2 := by
  obtain ⟨indexed, sessionKeys, _⟩ := releaseSession_spec without.indexed state.sessionId now
  obtain ⟨_, noneActive, noneRetained⟩ := prunable_iff.mp eligible
  refine ⟨fun sessionId => ?_, ?_, fun reqId => ?_, indexed, fun sessionId kept => ?_⟩
  · change (m.sessions.erase state.sessionId).get? sessionId = _
    rw [Dict.get?_erase, without.sessions]
    by_cases same : sessionId = state.sessionId <;> simp [same]
  · change (m.sessions.erase state.sessionId).size + _ = _
    rw [List.length_append, List.length_singleton, ← without.size, ← Dict.size_erase found]
    omega
  · rw [← without.reqToSession]
    simp only [Model.SessionLifecycleManager.remove, deleteState, Dict.get?_filter, noneActive, noneRetained]
    cases m.reqToSession.get? reqId <;> simp
  · simp only [List.mem_append, List.mem_singleton, not_or] at kept
    rw [← without.sessionKeys sessionId kept.1]
    change ((m.residency.releaseSession state.sessionId now).2.sessionKeys.get? sessionId).getD ∅ = _
    rw [sessionKeys, Dict.get?_erase, if_neg kept.2, getSessionKeys]

/-- The loop of `prune_idle_sessions`, over sessions that are there and may be removed. -/
theorem prune_loop {start : SessionLifecycleManager T} (clock : ℕ → T) (order : List (SessionKVState T))
    {gone : List String} (acc : ExpirationResult × SessionLifecycleManager T) (without : Without start gone acc.2)
    (distinct : (order.map fun state => state.sessionId).Nodup)
    (present : ∀ state ∈ order, acc.2.sessions.get? state.sessionId = some state)
    (eligible : ∀ state ∈ order, prunable state = true) :
    Without start (gone ++ order.map fun state => state.sessionId) (order.foldl (pruneOne clock) acc).2 ∧
      (order.foldl (pruneOne clock) acc).1.prunedSessions = acc.1.prunedSessions + order.length := by
  induction order generalizing gone acc with
  | nil => exact ⟨by simpa using without, rfl⟩
  | cons state rest ih =>
    obtain ⟨fresh, distinct⟩ := List.nodup_cons.mp distinct
    have here := present state (List.mem_cons_self ..)
    have removed := without.remove here (eligible state (List.mem_cons_self ..)) (clock acc.1.prunedSessions)
    have still : ∀ other ∈ rest, (pruneOne clock acc state).2.sessions.get? other.sessionId = some other := by
      intro other member
      have differ : other.sessionId ≠ state.sessionId := fun same =>
        fresh (List.mem_map.mpr ⟨other, member, same⟩)
      change (acc.2.sessions.erase state.sessionId).get? other.sessionId = some other
      rw [Dict.get?_erase, if_neg differ, present other (List.mem_cons_of_mem _ member)]
    obtain ⟨without', count⟩ := ih (pruneOne clock acc state) removed distinct still fun other member =>
      eligible other (List.mem_cons_of_mem _ member)
    refine ⟨by simpa using without', ?_⟩
    rw [List.foldl_cons, count, List.length_cons]
    simp only [pruneOne]
    omega

theorem pruneIdleSessions_spec (consistent : Consistent m) (clock : ℕ → T) :
    Without m ((victims m).map fun state => state.sessionId) (m.pruneIdleSessions clock).2 ∧
      (m.pruneIdleSessions clock).1.prunedSessions = (victims m).length := by
  have start : Without m [] m :=
    ⟨fun _ => rfl, rfl, fun _ => rfl, consistent.indexed, fun _ _ => rfl⟩
  obtain ⟨without, count⟩ := prune_loop clock (victims m) (.none, m) start (nodup_victims consistent.stored)
    (fun state member => present_of_mem_values consistent.stored (mem_of_mem_victims member).1)
    (fun state member => (mem_of_mem_victims member).2)
  rw [pruneIdleSessions_eq]
  exact ⟨without, count.trans (Nat.zero_add _)⟩

/-- A stored session goes if and only if it is a victim. -/
theorem gone_iff (consistent : Consistent m) {sessionId : String} {state : SessionKVState T}
    (found : m.sessions.get? sessionId = some state) :
    sessionId ∈ (victims m).map (fun state => state.sessionId) ↔ state ∈ victims m := by
  have sameId := consistent.stored sessionId state found
  constructor
  · intro gone
    obtain ⟨other, member, same⟩ := List.mem_map.mp gone
    have known := present_of_mem_values consistent.stored (mem_of_mem_victims member).1
    rw [same, found] at known
    rwa [Option.some.inj known]
  · exact fun member => List.mem_map.mpr ⟨state, member, sameId⟩

/-- If not enough sessions could be removed, every session that could be has been. -/
theorem spared_of_excess (consistent : Consistent m)
    (excess : (victims m).length < m.sessions.size - m.config.maxSessions) {sessionId : String}
    {state : SessionKVState T} (found : m.sessions.get? sessionId = some state) (spared : state ∉ victims m) :
    state.activeReqIds ≠ ∅ ∨ state.retainedReqIds ≠ ∅ := by
  have whole : victims m = sortedBy (fun state => state.lastAccessAt) (m.sessions.values.filter prunable) := by
    rw [length_victims, ← (perm_sortedBy (fun state : SessionKVState T => state.lastAccessAt) _).length_eq] at excess
    exact List.take_of_length_le (by omega)
  have ineligible : ¬ prunable state = true := fun eligible => spared <| by
    rw [whole, mem_sortedBy, List.mem_filter]
    exact ⟨Dict.mem_values_iff.mpr ⟨sessionId, found⟩, eligible⟩
  by_contra idle
  simp only [not_or, not_not] at idle
  have status : state.status = .idleRetained := by
    rcases consistent.status sessionId state found with ⟨_, busy⟩ | ⟨resting, _⟩
    · exact absurd idle.1 busy
    · exact resting
  exact ineligible (prunable_iff.mpr ⟨status, idle⟩)

/-- Pruning removes as many sessions without a request as there are too many, or all of them, and the least
recently used ones first; nothing else changes. -/
theorem pruning_bounds_sessions [Add T] (config : LifecycleConfig T) (calls : List (LifecycleCall T))
    (clock : ℕ → T) :
    let m := after config calls
    let pruned := m.pruneIdleSessions clock
    pruned.1.prunedSessions =
        min (m.sessions.size - config.maxSessions) (m.sessions.values.filter prunable).length ∧
      pruned.2.sessions.size + pruned.1.prunedSessions = m.sessions.size ∧
      (pruned.2.sessions.size ≤ config.maxSessions ∨
        ∀ sessionId state, pruned.2.sessions.get? sessionId = some state →
          state.activeReqIds ≠ ∅ ∨ state.retainedReqIds ≠ ∅) ∧
      (∀ sessionId removed, m.sessions.get? sessionId = some removed →
        pruned.2.sessions.get? sessionId = none →
        prunable removed = true ∧ ∀ otherId survivor, pruned.2.sessions.get? otherId = some survivor →
          prunable survivor = true → removed.lastAccessAt ≤ survivor.lastAccessAt) ∧
      (∀ sessionId state, pruned.2.sessions.get? sessionId = some state →
        m.sessions.get? sessionId = some state) ∧
      (∀ reqId, pruned.2.reqToSession.get? reqId = m.reqToSession.get? reqId) ∧
      ∀ sessionId, (pruned.2.sessions.get? sessionId).isSome ∨ m.sessions.get? sessionId = none →
        pruned.2.residency.getSessionKeys sessionId = m.residency.getSessionKeys sessionId ∧
          ∀ key, sessionId ∈ owners pruned.2.residency key ↔ sessionId ∈ owners m.residency key := by
  intro m pruned
  have consistent : Consistent m := consistent_after config calls
  have sameConfig : m.config = config := config_after config calls
  obtain ⟨without, count⟩ := pruneIdleSessions_spec consistent clock
  have size : pruned.2.sessions.size + pruned.1.prunedSessions = m.sessions.size := by
    rw [count, ← without.size, List.length_map]
  have kept : ∀ sessionId state, pruned.2.sessions.get? sessionId = some state →
      m.sessions.get? sessionId = some state ∧ state ∉ victims m := by
    intro sessionId state found
    rw [without.sessions] at found
    split at found
    · cases found
    · next spared => exact ⟨found, fun victim => spared ((gone_iff consistent found).mpr victim)⟩
  refine ⟨?_, size, ?_, fun sessionId removed found absent => ?_, fun sessionId state found =>
    (kept sessionId state found).1, without.reqToSession, fun sessionId present => ?_⟩
  · rw [count, length_victims, sameConfig]
  · rcases Nat.lt_or_ge (victims m).length (m.sessions.size - m.config.maxSessions) with few | enough
    · right
      intro sessionId state found
      obtain ⟨known, spared⟩ := kept sessionId state found
      exact spared_of_excess consistent few known spared
    · left
      have removed : m.sessions.size - config.maxSessions ≤ pruned.1.prunedSessions := by
        rwa [count, ← sameConfig]
      omega
  · have victim : removed ∈ victims m := by
      rw [without.sessions, found] at absent
      split at absent
      · next gone => exact (gone_iff consistent found).mp gone
      · cases absent
    refine ⟨(mem_of_mem_victims victim).2, fun otherId survivor found' eligible => ?_⟩
    obtain ⟨known, spared⟩ := kept otherId survivor found'
    have candidate : survivor ∈
        sortedBy (fun state => state.lastAccessAt) (m.sessions.values.filter prunable) := by
      rw [mem_sortedBy, List.mem_filter]
      exact ⟨Dict.mem_values_iff.mpr ⟨otherId, known⟩, eligible⟩
    rw [← List.take_append_drop (m.sessions.size - m.config.maxSessions) (sortedBy _ _), List.mem_append]
      at candidate
    exact le_of_mem_take_of_mem_drop victim (candidate.resolve_left spared)
  · have spared : sessionId ∉ (victims m).map fun state => state.sessionId := by
      intro gone
      rw [without.sessions, if_pos gone] at present
      obtain ⟨victim, member, rfl⟩ := List.mem_map.mp gone
      have known := present_of_mem_values consistent.stored (mem_of_mem_victims member).1
      simp [known] at present
    have sameKeys := without.sessionKeys sessionId spared
    refine ⟨sameKeys, fun key => ?_⟩
    rw [without.indexed.owned, consistent.indexed.owned, sameKeys]

end SessionLifecycleManager

end KVTiering.Soundness
