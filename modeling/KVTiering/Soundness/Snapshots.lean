import KVTiering.Soundness.Expiration

/-! # What the snapshots say

The snapshots of the manager and of its tracker are counted over two structures that the calls keep apart. In an
enabled manager they are counts of one set of sessions and one ownership relation. The flags that the scheduler
asks before it spends a step on expiration or demotion never keep it from work that is there.
-/

namespace KVTiering

/-- Values are counted by their keys. -/
theorem Dict.countP_values {κ ν : Type*} [DecidableEq κ] {d : Dict κ ν} {p : ν → Bool} {keys : Finset κ}
    (exact : ∀ key, key ∈ keys ↔ ∃ value, d.get? key = some value ∧ p value = true) :
    d.values.countP p = keys.card := by
  have same : keys = ((d.items.filter fun item => p item.2).map Prod.fst).toFinset := by
    ext key
    simp [exact, Dict.get?_eq_some_iff]
  have distinct : ((d.items.filter fun item => p item.2).map Prod.fst).Nodup :=
    d.nodup.sublist (List.filter_sublist.map _)
  rw [same, List.toFinset_card_of_nodup distinct, List.length_map, ← List.countP_eq_length_filter, Dict.values,
    List.countP_map]
  rfl

namespace Soundness

open Model

namespace SessionLifecycleManager

open Model.SessionLifecycleManager BlockResidencyTracker

variable {T : Type}

theorem mem_retainedBlocks [LinearOrder T] [Zero T] [One T] {states : List (SessionKVState T)} {key : OffloadKey} :
    key ∈ retainedBlocks states ↔ ∃ state ∈ states, key ∈ state.blockKeys := by
  have loop : ∀ (states : List (SessionKVState T)) (keys : Finset OffloadKey),
      key ∈ states.foldl (fun keys state => keys ∪ state.blockKeys) keys ↔
        key ∈ keys ∨ ∃ state ∈ states, key ∈ state.blockKeys := by
    intro states
    induction states with
    | nil => simp
    | cons head rest ih =>
      intro keys
      rw [List.foldl_cons, ih, Finset.mem_union, or_assoc]
      simp
  simpa [retainedBlocks] using loop states ∅

section Coherent

variable {sessions : Dict String (SessionKVState T)} {t : BlockResidencyTracker T}

/-- The owners of a block are the sessions that have its key. -/
theorem Coherent.mem_owners (coherent : Coherent sessions t) {sessionId : String} {key : OffloadKey} :
    sessionId ∈ owners t key ↔ ∃ state, sessions.get? sessionId = some state ∧ key ∈ state.blockKeys := by
  rw [coherent.indexed.owned]
  cases found : sessions.get? sessionId with
  | none => simp [getSessionKeys, coherent.gone sessionId found]
  | some state => simp [coherent.keys sessionId state found]

theorem Coherent.card_owners (coherent : Coherent sessions t) (key : OffloadKey) :
    (owners t key).card = sessions.values.countP fun state => key ∈ state.blockKeys := by
  symm
  apply Dict.countP_values
  intro sessionId
  rw [coherent.mem_owners]
  simp

/-- Blocks are counted by their owners. -/
theorem countP_blocks {p : Finset String → Bool} (unowned : p ∅ = false) {keys : Finset OffloadKey}
    (exact : ∀ key, key ∈ keys ↔ p (owners t key) = true) :
    t.blocks.values.countP (fun state => p state.sessionIds) = keys.card := by
  apply Dict.countP_values
  intro key
  rw [exact]
  cases found : t.blocks.get? key with
  | none => simp [owners, found, unowned]
  | some state => simp [owners_of_get? found]

end Coherent

variable [LinearOrder T] [Zero T] [One T] [Add T]

/-- In every reachable state of an enabled manager the two snapshots agree: each session is active or idle, and the
tracker has the active ones; the retained blocks are the tracked ones with an owner; the active blocks are those of
sessions with an active request; the shared blocks are those that several sessions have; and each tier is counted
once for each block with a copy in it. -/
theorem snapshots_agree (config : LifecycleConfig T) (enabled : config.enabled = true)
    (calls : List (LifecycleCall T)) :
    let m := after config calls
    let blocks := m.residency.snapshot
    m.snapshot.sessions = m.snapshot.activeSessions + m.snapshot.idleSessions ∧
      m.snapshot.activeSessions = m.residency.activeSessions.card ∧
      m.snapshot.retainedBlocks = (m.residency.blocks.values.countP fun state => state.sessionIds ≠ ∅) ∧
      blocks.activeBlocks =
        (retainedBlocks (m.sessions.values.filter fun state => state.activeReqIds ≠ ∅)).card ∧
      blocks.sharedBlocks = ((retainedBlocks m.sessions.values).filter fun key =>
        1 < m.sessions.values.countP fun state => key ∈ state.blockKeys).card ∧
      ∀ tier, blocks.secondaryBlocks.count tier =
        m.residency.blocks.values.countP fun state => tier ∈ state.secondaryTiers := by
  intro m blocks
  have coherent : Coherent m.sessions m.residency := coherent_after enabled calls
  have listed : ∀ key, key ∈ retainedBlocks m.sessions.values ↔ (owners m.residency key).Nonempty := by
    intro key
    simp only [mem_retainedBlocks, Dict.mem_values_iff, Finset.Nonempty, coherent.mem_owners]
    tauto
  refine ⟨?_, Dict.countP_values (by simpa using coherent.active), ?_, ?_, ?_, fun tier => ?_⟩
  · have size : m.sessions.values.length = m.sessions.size := List.length_map _
    change m.sessions.size = m.sessions.values.countP _ + m.sessions.values.countP _
    rw [← size, List.length_eq_countP_add_countP fun state : SessionKVState T => state.status = .active]
    congr 1
    apply List.countP_congr
    intro state member
    obtain ⟨sessionId, found⟩ := Dict.mem_values_iff.mp member
    rcases coherent.status sessionId state found with ⟨active, _⟩ | ⟨idle, _⟩
    · simp [active]
    · simp [idle]
  · exact (countP_blocks (p := fun ids => ids ≠ ∅) (by simp) (by simp [listed, Finset.nonempty_iff_ne_empty])).symm
  · refine countP_blocks (p := fun ids => ids ∩ m.residency.activeSessions ≠ ∅) (by simp) fun key => ?_
    rw [decide_eq_true_eq, ← Finset.nonempty_iff_ne_empty, mem_retainedBlocks]
    constructor
    · rintro ⟨state, member, recorded⟩
      obtain ⟨known, busy⟩ := List.mem_filter.mp member
      obtain ⟨sessionId, found⟩ := Dict.mem_values_iff.mp known
      refine ⟨sessionId, Finset.mem_inter.mpr ⟨coherent.mem_owners.mpr ⟨state, found, recorded⟩, ?_⟩⟩
      refine (coherent.active sessionId).mpr ⟨state, found, ?_⟩
      rcases coherent.status sessionId state found with ⟨active, _⟩ | ⟨_, none⟩
      · exact active
      · simp [none] at busy
    · rintro ⟨sessionId, member⟩
      obtain ⟨owner, active⟩ := Finset.mem_inter.mp member
      obtain ⟨state, found, recorded⟩ := coherent.mem_owners.mp owner
      obtain ⟨state', found', status⟩ := (coherent.active sessionId).mp active
      obtain rfl := Option.some.inj (found.symm.trans found')
      refine ⟨state, List.mem_filter.mpr ⟨Dict.mem_values_iff.mpr ⟨sessionId, found⟩, ?_⟩, recorded⟩
      rcases coherent.status sessionId state found with ⟨_, busy⟩ | ⟨idle, _⟩
      · simpa using busy
      · rw [idle] at status
        cases status
  · refine countP_blocks (p := fun ids => 1 < ids.card) (by simp) fun key => ?_
    rw [Finset.mem_filter, listed, decide_eq_true_eq, coherent.card_owners, and_iff_right_of_imp]
    intro several
    rw [← coherent.card_owners] at several
    exact Finset.card_pos.mp (by omega)
  · have loop : ∀ (states : List (BlockResidencyState T)) (counts : Multiset String),
        (states.foldl (fun counts state => counts + state.secondaryTiers.val) counts).count tier =
          counts.count tier + states.countP fun state => tier ∈ state.secondaryTiers := by
      intro states
      induction states with
      | nil => simp
      | cons head rest ih =>
        intro counts
        rw [List.foldl_cons, ih, Multiset.count_add, List.countP_cons,
          Multiset.count_eq_of_nodup head.secondaryTiers.nodup]
        simp only [Finset.mem_val, decide_eq_true_eq]
        omega
    simpa [blocks, BlockResidencyTracker.snapshot] using loop m.residency.blocks.values 0

/-- The two requests of the tape, one of them finished, and the block that they share. -/
theorem snapshots_agree_sharedCalls :
    (after tenUnits sharedCalls).snapshot.sessions = 2 ∧
      (after tenUnits sharedCalls).snapshot.activeSessions = 1 ∧
      (after tenUnits sharedCalls).residency.snapshot.sharedBlocks = 1 ∧
      (after tenUnits sharedCalls).residency.snapshot.activeBlocks =
        (retainedBlocks ((after tenUnits sharedCalls).sessions.values.filter fun state =>
          state.activeReqIds ≠ ∅)).card := by
  have agree := snapshots_agree tenUnits (by decide) sharedCalls
  exact ⟨by decide, by decide, by decide, agree.2.2.2.1⟩

/-! ## Flags -/

omit [One T] [Add T] in
/-- What is offered is behind an open flag. -/
theorem hasIdleCpuBlocks_of_candidate {t : BlockResidencyTracker T} {limit : ℤ} {idleBefore : Option T}
    {key : OffloadKey} (member : key ∈ t.getIdleCpuCandidates limit idleBefore) : t.hasIdleCpuBlocks = true := by
  obtain ⟨state, chosen, _⟩ := List.mem_map.mp member
  obtain ⟨inside, passes⟩ := List.mem_filter.mp ((mem_sortedBy ..).mp (mem_of_mem_sliceTo chosen))
  rw [Bool.and_eq_true] at passes
  exact List.any_eq_true.mpr ⟨state, inside, passes.1⟩

omit [One T] [Add T] in
/-- Behind an open flag something is offered, of whatever age. -/
theorem candidates_ne_nil {t : BlockResidencyTracker T} (idle : t.hasIdleCpuBlocks = true) {limit : ℤ}
    (positive : 0 < limit) : t.getIdleCpuCandidates limit none ≠ [] := by
  obtain ⟨state, inside, passes⟩ := List.any_eq_true.mp idle
  intro nothing
  rw [Model.BlockResidencyTracker.getIdleCpuCandidates, List.map_eq_nil_iff, sliceTo, if_pos positive.le,
    List.take_eq_nil_iff] at nothing
  rcases nothing with zero | empty
  · omega
  · apply List.not_mem_nil (a := state)
    rw [← empty, mem_sortedBy, List.mem_filter]
    exact ⟨inside, by simpa using passes⟩

omit [Add T] in
/-- The next expiration is the deadline of an idle session. -/
theorem next_refreshNextExpiration {m : SessionLifecycleManager T} {next : T}
    (opens : m.refreshNextExpiration.nextExpirationAt = some next) : ∃ sessionId state,
      m.sessions.get? sessionId = some state ∧ state.status = .idleRetained ∧ state.ttlDeadline = some next := by
  change (if m.config.idleTtlSec ≤ 0 then none else m.deadlines.min?) = some next at opens
  split at opens
  · cases opens
  · obtain ⟨state, member, chosen⟩ := List.mem_filterMap.mp (List.min?_mem opens)
    obtain ⟨sessionId, found⟩ := Dict.mem_values_iff.mp member
    split at chosen
    · next idle => exact ⟨sessionId, state, found, by simpa [SessionKVState.isIdle] using idle, chosen⟩
    · cases chosen

omit [Add T] in
/-- An expiration that protects nothing leaves nothing due. -/
theorem hasExpirationDue_expireIdleSessions {m : SessionLifecycleManager T}
    (coherent : Coherent m.sessions m.residency) (gated : Gated m) (enabled : m.enabled = true)
    (positive : 0 < m.config.idleTtlSec) (clock : ℕ → T) :
    (m.expireIdleSessions ∅ ∅ clock).2.hasExpirationDue clock = false := by
  obtain ⟨removal, removed⟩ := expireIdleSessionsIn_spec coherent gated enabled ∅ ∅ clock (.refl m.sessions.values)
  rw [Model.SessionLifecycleManager.expireIdleSessions]
  simp only [expireIdleSessionsIn] at removal removed ⊢
  have on : ¬ (¬ m.enabled = true ∨ m.config.idleTtlSec ≤ 0) := by
    simp [enabled, positive]
  rw [if_neg on] at removal removed ⊢
  split at removal
  · next closed =>
    rw [if_pos closed]
    cases opens : m.nextExpirationAt with
    | none => simp [hasExpirationDue, opens]
    | some next => simpa [hasExpirationDue, notDue, opens] using closed
  · next opened =>
    rw [if_neg opened] at removed ⊢
    by_contra due
    rw [hasExpirationDue, Bool.not_eq_false, Option.any_eq_true] at due
    obtain ⟨next, opens, passed⟩ := due
    obtain ⟨sessionId, state, found, idle, timed⟩ := next_refreshNextExpiration opens
    -- the session of the next deadline was there before, and had nothing to protect it
    have before := removal.kept sessionId state found
    have stays := (removed sessionId state before).mpr
      (expires_iff.mpr ⟨idle, ⟨next, timed, of_decide_eq_true passed⟩, by simp, by simp⟩)
    change (expireLoop (clock 0) ∅ ∅ clock m.sessions.values m).2.sessions.get? sessionId = none at stays
    change (expireLoop (clock 0) ∅ ∅ clock m.sessions.values m).2.sessions.get? sessionId = some state at found
    rw [stays] at found
    cases found

/-- The flags never keep the scheduler from work: behind a closed one no session is due, or none can become due
before another call, or nothing is offered for demotion. Nor do they keep it busy: an open flag of demotion has a
block to offer, and an expiration that had nothing to protect leaves nothing due. -/
theorem flags_exact [Sub T] (config : LifecycleConfig T) (enabled : config.enabled = true)
    (calls : List (LifecycleCall T)) :
    let m := after config calls
    (∀ clock, m.hasExpirationDue clock = false → ∀ sessionId state deadline,
      m.sessions.get? sessionId = some state → state.status = .idleRetained → state.ttlDeadline = some deadline →
        clock 0 < deadline) ∧
      (m.hasPendingExpiration = false → ∀ sessionId state, m.sessions.get? sessionId = some state →
        state.status = .idleRetained → state.ttlDeadline = none) ∧
      (∀ clock, 0 < config.idleTtlSec →
        (m.expireIdleSessions ∅ ∅ clock).2.hasExpirationDue clock = false) ∧
      (m.hasPendingCpuDemotion = true ↔ 0 < config.cpuDemoteAfterSec ∧
        ∀ limit clock, 0 < limit → m.getIdleCpuCandidates limit false clock ≠ []) ∧
      (m.hasPendingCpuDemotion = false → ∀ limit clock, m.getIdleCpuCandidates limit true clock = []) := by
  intro m
  have coherent : Coherent m.sessions m.residency := coherent_after enabled calls
  have gated : Gated m := gated_after config calls
  have same : m.config = config := config_after config calls
  have on : m.enabled = true := by rw [Model.SessionLifecycleManager.enabled, same, enabled]
  refine ⟨fun clock closed sessionId state deadline found idle timed => ?_,
    fun closed sessionId state found idle => ?_, fun clock positive => ?_, ?_, fun closed limit clock => ?_⟩
  · obtain ⟨next, opens, sooner⟩ :=
      gated.due sessionId state deadline found (by simp [SessionKVState.isIdle, idle]) timed
    rw [hasExpirationDue, opens, Option.any_some, decide_eq_false_iff_not, not_le] at closed
    exact closed.trans_le sooner
  · cases timed : state.ttlDeadline with
    | none => rfl
    | some deadline =>
      obtain ⟨next, opens, _⟩ := gated.due sessionId state deadline found (by simp [SessionKVState.isIdle, idle]) timed
      rw [hasPendingExpiration, opens] at closed
      cases closed
  · rw [← same] at positive
    exact hasExpirationDue_expireIdleSessions coherent gated on positive clock
  · rw [hasPendingCpuDemotion, Bool.and_eq_true, decide_eq_true_eq, same]
    refine and_congr_right fun _ => ⟨fun idle limit clock room => ?_, fun offered => ?_⟩
    · exact candidates_ne_nil idle room
    · obtain ⟨key, member⟩ := List.exists_mem_of_ne_nil _ (offered 1 (fun _ => 0) one_pos)
      exact hasIdleCpuBlocks_of_candidate member
  · apply List.eq_nil_iff_forall_not_mem.mpr
    intro key member
    rw [Model.SessionLifecycleManager.getIdleCpuCandidates, if_pos rfl] at member
    split at member
    · cases member
    · next positive =>
      rw [hasPendingCpuDemotion, decide_eq_true (not_le.mp positive), Bool.true_and] at closed
      rw [hasIdleCpuBlocks_of_candidate member] at closed
      cases closed

/-- After the calls on the shared block an expiration that protects nothing leaves no session due. -/
theorem flags_exact_sharedCalls :
    (after tenUnits sharedCalls).hasPendingExpiration = true ∧
      ((after tenUnits sharedCalls).expireIdleSessions ∅ ∅ fun _ => 20).2.hasExpirationDue (fun _ => 20) = false :=
  ⟨by decide, (flags_exact tenUnits (by decide) sharedCalls).2.2.1 (fun _ => 20) (by decide)⟩

end SessionLifecycleManager

end Soundness

end KVTiering
