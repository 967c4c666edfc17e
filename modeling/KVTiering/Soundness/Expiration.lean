import KVTiering.Soundness.ExpirationGate
import KVTiering.Soundness.LifecycleCoherence

/-! # Which sessions go, and which keys go with them

Expiration and pruning remove sessions one by one and collect the keys that each removal leaves without an
owner. In a coherent manager the collection is exact at every point of the loop: it holds the keys that some
removed session owned and no remaining session owns, in whatever order the sessions are removed.
-/

namespace KVTiering.Soundness

open Model

namespace SessionLifecycleManager

open Model.SessionLifecycleManager BlockResidencyTracker

variable {T : Type} [LinearOrder T] [Zero T]

theorem expires_iff {now : T} {protectedKeys : Finset OffloadKey} {protectedReqIds : Finset String}
    {state : SessionKVState T} : expires now protectedKeys protectedReqIds state = true ↔
      state.status = .idleRetained ∧ (∃ deadline, state.ttlDeadline = some deadline ∧ deadline ≤ now) ∧
        Disjoint state.blockKeys protectedKeys ∧ Disjoint state.retainedReqIds protectedReqIds := by
  cases timed : state.ttlDeadline <;>
    simp [expires, timed, SessionKVState.isIdle, and_assoc, Finset.disjoint_iff_inter_eq_empty]

variable [One T]

/-- The keys of removed sessions that no remaining session owns. -/
def Orphaned (before after : Dict String (SessionKVState T)) (key : OffloadKey) : Prop :=
  (∃ sessionId state, before.get? sessionId = some state ∧ after.get? sessionId = none ∧
    key ∈ state.blockKeys) ∧
    ∀ sessionId state, after.get? sessionId = some state → key ∉ state.blockKeys

/-- Where a loop that removes sessions has come from: some sessions are gone, the others are as they were, and
the keys collected are the orphaned ones. -/
structure Removal (start : SessionLifecycleManager T) (keys : Finset OffloadKey)
    (m : SessionLifecycleManager T) : Prop where
  coherent : Coherent m.sessions m.residency
  kept : ∀ sessionId state, m.sessions.get? sessionId = some state →
    start.sessions.get? sessionId = some state
  exact : ∀ key, key ∈ keys ↔ Orphaned start.sessions m.sessions key

theorem Removal.start {m : SessionLifecycleManager T} (coherent : Coherent m.sessions m.residency) :
    Removal m ∅ m where
  coherent := coherent
  kept _ _ found := found
  exact key := by
    simp only [Finset.notMem_empty, false_iff]
    rintro ⟨⟨sessionId, state, found, absent, _⟩, _⟩
    simp [found] at absent

/-- A key is left without an owner when its last owner is removed. -/
theorem orphaned_erase {m : SessionLifecycleManager T} {start : SessionLifecycleManager T}
    {keys : Finset OffloadKey} (removal : Removal start keys m) {state : SessionKVState T}
    (found : m.sessions.get? state.sessionId = some state) (key : OffloadKey) :
    Orphaned start.sessions (m.sessions.erase state.sessionId) key ↔
      key ∈ keys ∨ (key ∈ state.blockKeys ∧
        ∀ sessionId other, m.sessions.get? sessionId = some other → key ∈ other.blockKeys →
          sessionId = state.sessionId) := by
  rw [removal.exact]
  simp only [Orphaned, Dict.get?_erase]
  constructor
  · rintro ⟨⟨sessionId, owner, started, gone, owned⟩, free⟩
    by_cases still : key ∈ state.blockKeys
    · refine .inr ⟨still, fun sessionId other known recorded => ?_⟩
      by_contra differ
      exact free sessionId other (by rw [if_neg differ, known]) recorded
    · left
      have differ : sessionId ≠ state.sessionId := by
        rintro rfl
        rw [removal.kept _ state found] at started
        obtain rfl := Option.some.inj started
        exact still owned
      rw [if_neg differ] at gone
      refine ⟨⟨sessionId, owner, started, gone, owned⟩, fun other known found' recorded => ?_⟩
      by_cases same : other = state.sessionId
      · rw [same, found] at found'
        obtain rfl := Option.some.inj found'
        exact still recorded
      · exact free other known (by rw [if_neg same, found']) recorded
  · rintro (⟨⟨sessionId, owner, started, gone, owned⟩, free⟩ | ⟨owned, last⟩)
    · refine ⟨⟨sessionId, owner, started, by rw [gone, ite_self], owned⟩, fun other known found' => ?_⟩
      split at found'
      · cases found'
      · exact free other known found'
    · refine ⟨⟨_, state, removal.kept _ state found, if_pos rfl, owned⟩, fun other known found' recorded => ?_⟩
      split at found'
      · cases found'
      · next differ => exact differ (last other known found' recorded)

/-- Removing one more session, in a coherent manager. -/
theorem Removal.remove {start m : SessionLifecycleManager T} {keys : Finset OffloadKey}
    (removal : Removal start keys m) {state : SessionKVState T}
    (found : m.sessions.get? state.sessionId = some state) (now : T) :
    Removal start (keys ∪ (m.remove state now).1) (m.remove state now).2 := by
  obtain ⟨_, _, _, released⟩ := releaseSession_spec removal.coherent.indexed state.sessionId now
  refine ⟨coherent_remove removal.coherent state now, fun sessionId known found' => ?_, fun key => ?_⟩
  · change (m.sessions.erase state.sessionId).get? sessionId = some known at found'
    rw [Dict.get?_erase] at found'
    split at found'
    · cases found'
    · exact removal.kept sessionId known found'
  · change key ∈ keys ∪ (m.residency.releaseSession state.sessionId now).1 ↔
      Orphaned start.sessions (m.sessions.erase state.sessionId) key
    rw [orphaned_erase removal found, Finset.mem_union, released, removal.coherent.keys _ state found]
    refine or_congr_right (and_congr_right fun _ => forall_congr' fun other => ?_)
    cases known : m.sessions.get? other with
    | none => simp [getSessionKeys, removal.coherent.gone other known]
    | some owner => simp [removal.coherent.keys other owner known]

/-- A loop that removes the chosen sessions of a list, each with whatever the clock reads. -/
theorem removal_loop {start : SessionLifecycleManager T}
    (body : ExpirationResult × SessionLifecycleManager T → SessionKVState T →
      ExpirationResult × SessionLifecycleManager T) (chosen : SessionKVState T → Bool)
    (skips : ∀ acc state, chosen state = false → body acc state = acc)
    (removes : ∀ acc state, chosen state = true → ∃ now,
      (body acc state).1.unreferencedKeys = acc.1.unreferencedKeys ∪ (acc.2.remove state now).1 ∧
        (body acc state).2 = (acc.2.remove state now).2)
    (order : List (SessionKVState T)) (acc : ExpirationResult × SessionLifecycleManager T)
    (removal : Removal start acc.1.unreferencedKeys acc.2)
    (distinct : (order.map fun state => state.sessionId).Nodup)
    (present : ∀ state ∈ order, acc.2.sessions.get? state.sessionId = some state) :
    Removal start (order.foldl body acc).1.unreferencedKeys (order.foldl body acc).2 ∧
      ∀ sessionId, (order.foldl body acc).2.sessions.get? sessionId =
        if ∃ state ∈ order, state.sessionId = sessionId ∧ chosen state = true then none
        else acc.2.sessions.get? sessionId := by
  induction order generalizing acc with
  | nil => exact ⟨removal, fun sessionId => by simp⟩
  | cons state rest ih =>
    obtain ⟨fresh, distinct⟩ := List.nodup_cons.mp distinct
    have here := present state (List.mem_cons_self ..)
    rw [List.foldl_cons]
    cases choice : chosen state with
    | false =>
      rw [skips acc state choice]
      obtain ⟨removal', sessions⟩ := ih acc removal distinct fun other member =>
        present other (List.mem_cons_of_mem _ member)
      exact ⟨removal', fun sessionId => by simp [sessions, choice]⟩
    | true =>
      obtain ⟨now, keys, same⟩ := removes acc state choice
      have gone : ∀ sessionId, (body acc state).2.sessions.get? sessionId =
          if sessionId = state.sessionId then none else acc.2.sessions.get? sessionId := by
        intro sessionId
        rw [same]
        exact Dict.get?_erase _ _ _
      have removed : Removal start (body acc state).1.unreferencedKeys (body acc state).2 := by
        rw [keys, same]
        exact removal.remove here now
      obtain ⟨removal', sessions⟩ := ih _ removed distinct fun other member => by
        have differ : other.sessionId ≠ state.sessionId := fun equal =>
          fresh (List.mem_map.mpr ⟨other, member, equal⟩)
        rw [gone, if_neg differ, present other (List.mem_cons_of_mem _ member)]
      refine ⟨removal', fun sessionId => ?_⟩
      rw [sessions, gone]
      by_cases equal : state.sessionId = sessionId
      · simp [equal, choice]
      · simp [equal, Ne.symm equal]

theorem expireLoop_spec {m : SessionLifecycleManager T} (coherent : Coherent m.sessions m.residency) (now : T)
    (protectedKeys : Finset OffloadKey) (protectedReqIds : Finset String) (clock : ℕ → T)
    {order : List (SessionKVState T)} (perm : order.Perm m.sessions.values) :
    let expired := expireLoop now protectedKeys protectedReqIds clock order m
    Removal m expired.1.unreferencedKeys expired.2 ∧
      ∀ sessionId state, m.sessions.get? sessionId = some state →
        (expired.2.sessions.get? sessionId = none ↔ expires now protectedKeys protectedReqIds state = true) := by
  obtain ⟨removal, sessions⟩ := removal_loop (expireOne now protectedKeys protectedReqIds clock)
    (expires now protectedKeys protectedReqIds)
    (fun acc state skipped => by simp [expireOne, skipped])
    (fun acc state expired => ⟨_, by rw [expireOne, if_pos expired], by rw [expireOne, if_pos expired]⟩)
    order (.none, m) (Removal.start coherent)
    ((perm.map _).nodup_iff.mpr (nodup_sessionIds coherent.stored))
    (fun state member => present_of_mem_values coherent.stored (perm.mem_iff.mp member))
  refine ⟨removal, fun sessionId state found => ?_⟩
  have sameId := coherent.stored sessionId state found
  rw [expireLoop, sessions, found]
  by_cases due : expires now protectedKeys protectedReqIds state = true
  · have listed : state ∈ order := perm.mem_iff.mpr (Dict.mem_values_iff.mpr ⟨sessionId, found⟩)
    rw [if_pos ⟨state, listed, sameId, due⟩]
    simp [due]
  · rw [if_neg]
    · simp [due]
    · rintro ⟨other, member, otherId, expired⟩
      have found' := present_of_mem_values coherent.stored (perm.mem_iff.mp member)
      rw [otherId, found] at found'
      obtain rfl := Option.some.inj found'
      exact due expired

/-- A session that `prune_idle_sessions` removes has neither an active nor a retained request. -/
theorem pruneIdleSessionsIn_spec {m : SessionLifecycleManager T} (coherent : Coherent m.sessions m.residency)
    (clock : ℕ → T) {order : List (SessionKVState T)} (perm : order.Perm m.sessions.values) :
    let pruned := m.pruneIdleSessionsIn clock order
    Removal m pruned.1.unreferencedKeys pruned.2 ∧
      ∀ sessionId state, m.sessions.get? sessionId = some state → pruned.2.sessions.get? sessionId = none →
        prunable state = true := by
  simp only [pruneIdleSessionsIn]
  split
  · exact ⟨Removal.start coherent, fun sessionId state found absent => by simp [found] at absent⟩
  · set candidates := (sortedBy (fun state => state.lastAccessAt) (order.filter prunable)).take
      (m.sessions.size - m.config.maxSessions) with candidates_eq
    have member_iff : ∀ state ∈ candidates, state ∈ order ∧ prunable state = true := fun state member => by
      simpa only [mem_sortedBy, List.mem_filter] using List.mem_of_mem_take member
    have distinct : (candidates.map fun state => state.sessionId).Nodup := by
      have sorted : (sortedBy (fun state : SessionKVState T => state.lastAccessAt) (order.filter prunable)).Perm
          (order.filter prunable) := List.perm_insertionSort _ _
      have inOrder := (perm.map fun state => state.sessionId).nodup_iff.mpr (nodup_sessionIds coherent.stored)
      have filtered := inOrder.sublist ((List.filter_sublist (p := prunable)).map fun state => state.sessionId)
      exact ((sorted.map _).nodup_iff.mpr filtered).sublist ((List.take_sublist _ _).map _)
    obtain ⟨removal, sessions⟩ := removal_loop (pruneOne clock) (fun _ => true)
      (fun acc state skipped => by cases skipped) (fun acc state _ => ⟨_, rfl, rfl⟩)
      candidates (.none, m) (Removal.start coherent) distinct
      (fun state member => present_of_mem_values coherent.stored (perm.mem_iff.mp (member_iff state member).1))
    refine ⟨removal, fun sessionId state found absent => ?_⟩
    rw [sessions, found] at absent
    split at absent
    · next removed =>
      obtain ⟨other, member, otherId, _⟩ := removed
      obtain ⟨listed, eligible⟩ := member_iff other member
      have found' := present_of_mem_values coherent.stored (perm.mem_iff.mp listed)
      rw [otherId, found] at found'
      obtain rfl := Option.some.inj found'
      exact eligible
    · cases absent

/-- Behind the early returns as much as past them, `expire_idle_sessions` removes what is due. -/
theorem expireIdleSessionsIn_spec {m : SessionLifecycleManager T} (coherent : Coherent m.sessions m.residency)
    (gated : Gated m) (enabled : m.enabled = true) (protectedKeys : Finset OffloadKey)
    (protectedReqIds : Finset String) (clock : ℕ → T) {order : List (SessionKVState T)}
    (perm : order.Perm m.sessions.values) :
    let expired := m.expireIdleSessionsIn protectedKeys protectedReqIds clock order
    Removal m expired.1.unreferencedKeys expired.2 ∧
      ∀ sessionId state, m.sessions.get? sessionId = some state →
        (expired.2.sessions.get? sessionId = none ↔
          expires (clock 0) protectedKeys protectedReqIds state = true) := by
  -- behind an early return nothing is due, and nothing is removed
  have nothing : (∀ sessionId state, m.sessions.get? sessionId = some state →
      expires (clock 0) protectedKeys protectedReqIds state = false) →
      Removal m ∅ m ∧ ∀ sessionId state, m.sessions.get? sessionId = some state →
        (m.sessions.get? sessionId = none ↔ expires (clock 0) protectedKeys protectedReqIds state = true) :=
    fun none => ⟨Removal.start coherent, fun sessionId state found => by
      simp [found, none sessionId state found]⟩
  simp only [expireIdleSessionsIn]
  split
  · next off =>
    apply nothing
    intro sessionId state found
    by_contra due
    obtain ⟨_, ⟨deadline, timed, _⟩, _⟩ := expires_iff.mp (by simpa using due)
    have on := gated.timed sessionId state deadline found timed
    exact absurd (off.resolve_left (not_not.mpr enabled)) (not_le.mpr on)
  · split
    · next closed => exact nothing fun sessionId state found => not_expires_of_notDue gated closed found
    · obtain ⟨removal, removed⟩ :=
        expireLoop_spec coherent (clock 0) protectedKeys protectedReqIds clock perm
      exact ⟨⟨removal.coherent, removal.kept, removal.exact⟩, removed⟩

variable [Add T]

/-- In every reachable state of an enabled manager and for every order of the sessions: expiration removes
exactly the idle sessions that are due and not protected, and reports exactly the keys that it leaves without
an owner, none of them protected or of a session with an active request. Pruning reports its orphaned keys in
the same way, and removes no session with an active or a retained request. -/
theorem expiration_exact (config : LifecycleConfig T) (enabled : config.enabled = true)
    (calls : List (LifecycleCall T)) (protectedKeys : Finset OffloadKey) (protectedReqIds : Finset String)
    (clock : ℕ → T) (order : List (SessionKVState T))
    (perm : order.Perm (after config calls).sessions.values) :
    let m := after config calls
    let expired := m.expireIdleSessionsIn protectedKeys protectedReqIds clock order
    let pruned := m.pruneIdleSessionsIn clock order
    ((∀ sessionId state, m.sessions.get? sessionId = some state →
        (expired.2.sessions.get? sessionId = none ↔ state.status = .idleRetained ∧
          (∃ deadline, state.ttlDeadline = some deadline ∧ deadline ≤ clock 0) ∧
          Disjoint state.blockKeys protectedKeys ∧ Disjoint state.retainedReqIds protectedReqIds)) ∧
      (∀ sessionId state, expired.2.sessions.get? sessionId = some state →
        m.sessions.get? sessionId = some state) ∧
      (∀ key, key ∈ expired.1.unreferencedKeys ↔ Orphaned m.sessions expired.2.sessions key) ∧
      ∀ key ∈ expired.1.unreferencedKeys, key ∉ protectedKeys ∧
        ∀ sessionId state, m.sessions.get? sessionId = some state → state.activeReqIds ≠ ∅ →
          key ∉ state.blockKeys) ∧
      (∀ sessionId state, m.sessions.get? sessionId = some state → pruned.2.sessions.get? sessionId = none →
        state.activeReqIds = ∅ ∧ state.retainedReqIds = ∅) ∧
      (∀ sessionId state, pruned.2.sessions.get? sessionId = some state →
        m.sessions.get? sessionId = some state) ∧
      ∀ key, key ∈ pruned.1.unreferencedKeys ↔ Orphaned m.sessions pruned.2.sessions key := by
  intro m expired pruned
  have coherent : Coherent m.sessions m.residency := coherent_after enabled calls
  have enabled : m.enabled = true := by rw [Model.SessionLifecycleManager.enabled, config_after, enabled]
  obtain ⟨removal, removed⟩ := expireIdleSessionsIn_spec coherent (gated_after config calls) enabled
    protectedKeys protectedReqIds clock perm
  obtain ⟨pruning, eligible⟩ := pruneIdleSessionsIn_spec coherent clock perm
  refine ⟨⟨fun sessionId state found => (removed sessionId state found).trans expires_iff, removal.kept,
    removal.exact, fun key orphan => ?_⟩, fun sessionId state found absent => ?_, pruning.kept, pruning.exact⟩
  · obtain ⟨⟨sessionId, owner, found, gone, owned⟩, free⟩ := (removal.exact key).mp orphan
    obtain ⟨_, _, unprotected, _⟩ := expires_iff.mp ((removed sessionId owner found).mp gone)
    refine ⟨Finset.disjoint_left.mp unprotected owned, fun other state found busy recorded => ?_⟩
    cases remains : expired.2.sessions.get? other with
    | none =>
      obtain ⟨idle, _⟩ := expires_iff.mp ((removed other state found).mp remains)
      rcases coherent.status other state found with ⟨active, _⟩ | ⟨_, none⟩
      · rw [idle] at active
        cases active
      · exact busy none
    | some state' =>
      have same := removal.kept other state' remains
      rw [found] at same
      obtain rfl := Option.some.inj same
      exact free other state remains recorded
  · have eligible := eligible sessionId state found absent
    simp only [prunable, Bool.and_eq_true, decide_eq_true_eq] at eligible
    exact ⟨eligible.1.2, eligible.2⟩

/-- The first session of the two is due, the second one still has an active request. -/
theorem expiration_exact_sharedCalls :
    [2] ∉ ((after tenUnits sharedCalls).expireIdleSessions ∅ ∅ fun _ => 20).1.unreferencedKeys := by
  have expiration := expiration_exact tenUnits (by decide) sharedCalls ∅ ∅ (fun _ => 20) _ (List.Perm.refl _)
  have found : ((after tenUnits sharedCalls).sessions.get? "s2").map (fun state =>
      (decide (state.activeReqIds ≠ ∅), decide ([2] ∈ state.blockKeys))) = some (true, true) := by decide
  obtain ⟨state, found, facts⟩ := Option.map_eq_some_iff.mp found
  simp only [Prod.mk.injEq, decide_eq_true_eq] at facts
  intro orphan
  exact (expiration.1.2.2.2 [2] orphan).2 "s2" state found facts.1 facts.2

example : ((after tenUnits sharedCalls).expireIdleSessions ∅ ∅ fun _ => 20).1.unreferencedKeys = {[1]} := by
  decide

end SessionLifecycleManager

end KVTiering.Soundness
