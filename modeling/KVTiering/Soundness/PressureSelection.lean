import KVTiering.Soundness.OwnershipIndex

/-! # Selection under pressure

All lists of candidates are parts of one ranking of the eligible blocks, from the coldest to the hottest. Its
first criterion splits it: the blocks of active sessions come last, so leaving them out cuts off an end of the
ranking, and so does a smaller limit. With an age limit none of them is in the ranking at all, although the
code does not ask: a block with an idle mark has no active owner.
-/

namespace KVTiering.Soundness.BlockResidencyTracker

open Model Model.BlockResidencyTracker

variable {T : Type} [LinearOrder T]

/-- The block may be demoted, but for its sessions. -/
def eligible (idleBefore : Option T) (state : BlockResidencyState T) : Bool :=
  state.cpuResident && !state.hasInflightTransfer &&
    idleBefore.all fun before => state.idleSince.any fun since => since ≤ before

/-- A block of the key is owned by an active session. -/
def Active (t : BlockResidencyTracker T) (key : OffloadKey) : Prop :=
  ∃ state, t.blocks.get? key = some state ∧ state.hasActiveSession t.activeSessions = true

/-- A block of the key may be demoted, but for its sessions. -/
def Eligible (t : BlockResidencyTracker T) (idleBefore : Option T) (key : OffloadKey) : Prop :=
  ∃ state, t.blocks.get? key = some state ∧ eligible idleBefore state = true

variable [Zero T]

/-- The sort key of the candidates. -/
def warmth (activeSessions : Finset String) (state : BlockResidencyState T) : Bool ×ₗ Bool ×ₗ ℕ ×ₗ Bool ×ₗ T ×ₗ T :=
  toLex (state.hasActiveSession activeSessions, toLex (state.isShared, toLex (state.accessCount,
    toLex (state.idleSince.isNone, toLex (orElseTime state.idleSince state.lastAccessAt, state.lastAccessAt)))))

/-- The eligible blocks, from the coldest to the hottest. -/
def ranking (t : BlockResidencyTracker T) (idleBefore : Option T) : List (BlockResidencyState T) :=
  sortedBy (warmth t.activeSessions) (t.blocks.values.filter (eligible idleBefore))

theorem getCpuPressureCandidates_eq (t : BlockResidencyTracker T) (limit : ℤ) (idleBefore : Option T)
    (includeActive : Bool) : t.getCpuPressureCandidates limit idleBefore includeActive =
      (sliceTo ((ranking t idleBefore).filter fun state =>
        includeActive || !state.hasActiveSession t.activeSessions) limit).map fun state => state.key := by
  rw [ranking, ← sortedBy_filter, List.filter_filter]
  simp only [Bool.and_comm (_ || _)]
  rfl

/-! ## The ranking -/

theorem get?_of_mem_ranking {t : BlockResidencyTracker T} (named : Named t) {idleBefore : Option T}
    {state : BlockResidencyState T} (member : state ∈ ranking t idleBefore) :
    t.blocks.get? state.key = some state ∧ eligible idleBefore state = true := by
  rw [ranking, mem_sortedBy, List.mem_filter] at member
  obtain ⟨key, found⟩ := Dict.mem_values_iff.mp member.1
  rw [named key state found]
  exact ⟨found, member.2⟩

theorem mem_ranking {t : BlockResidencyTracker T} {idleBefore : Option T} {key : OffloadKey}
    {state : BlockResidencyState T} (found : t.blocks.get? key = some state)
    (chosen : eligible idleBefore state = true) : state ∈ ranking t idleBefore := by
  rw [ranking, mem_sortedBy, List.mem_filter]
  exact ⟨Dict.mem_values_iff.mpr ⟨key, found⟩, chosen⟩

/-- The blocks of active sessions come last. -/
theorem ranking_split (t : BlockResidencyTracker T) (idleBefore : Option T) :
    ((ranking t idleBefore).filter fun state => !state.hasActiveSession t.activeSessions) ++
      (ranking t idleBefore).filter (fun state => state.hasActiveSession t.activeSessions) =
        ranking t idleBefore := by
  apply filter_append_of_flag
  apply (pairwise_sortedBy (warmth t.activeSessions) _).imp
  intro colder hotter le
  exact Prod.Lex.monotone_fst _ _ le

/-- Among blocks without active sessions those of several sessions come last, and otherwise those that are
accessed more often. -/
theorem colder_of_warmth_le {activeSessions : Finset String} {colder hotter : BlockResidencyState T}
    (le : warmth activeSessions colder ≤ warmth activeSessions hotter)
    (inactive : hotter.hasActiveSession activeSessions = false) :
    (colder.isShared = true → hotter.isShared = true) ∧
      (colder.isShared = hotter.isShared → colder.accessCount ≤ hotter.accessCount) := by
  rcases Prod.Lex.toLex_le_toLex.mp le with less | ⟨-, second⟩
  · exact absurd (Bool.lt_iff.mp less).2 (by simp [inactive])
  rcases Prod.Lex.toLex_le_toLex.mp second with less | ⟨same, third⟩
  · have apart : colder.isShared = false ∧ hotter.isShared = true := Bool.lt_iff.mp less
    simp [apart]
  · exact ⟨fun shared => same.symm.trans shared, fun _ => Prod.Lex.monotone_fst _ _ third⟩

/-! ## The lists -/

/-- The blocks without active sessions are where the ranking begins. -/
theorem inactive_prefix_ranking (t : BlockResidencyTracker T) (idleBefore : Option T) :
    (ranking t idleBefore).filter (fun state => !state.hasActiveSession t.activeSessions) <+:
      ranking t idleBefore := ⟨_, ranking_split t idleBefore⟩

theorem candidates_prefix_ranking (t : BlockResidencyTracker T) {limit : ℤ} (nonneg : 0 ≤ limit)
    (idleBefore : Option T) (includeActive : Bool) : t.getCpuPressureCandidates limit idleBefore includeActive <+:
      (ranking t idleBefore).map fun state => state.key := by
  rw [getCpuPressureCandidates_eq]
  apply List.IsPrefix.map
  apply (sliceTo_isPrefix _ nonneg).trans
  cases includeActive with
  | true => simp
  | false => exact inactive_prefix_ranking t idleBefore

theorem candidates_unlimited (t : BlockResidencyTracker T) {unlimited : ℤ} (room : t.blocks.size ≤ unlimited)
    (idleBefore : Option T) : t.getCpuPressureCandidates unlimited idleBefore true =
      (ranking t idleBefore).map fun state => state.key := by
  have fewer : (ranking t idleBefore).length ≤ t.blocks.size := by
    rw [ranking, (perm_sortedBy _ _).length_eq, Dict.size, ← List.length_map (f := Prod.snd)]
    exact List.length_filter_le _ _
  rw [getCpuPressureCandidates_eq, sliceTo_of_length_le]
  · simp
  · simpa using le_trans (Int.ofNat_le.mpr fewer) room

/-- A candidate of an active session has every eligible block without one before it. -/
theorem inactive_before {t : BlockResidencyTracker T} (named : Named t) {limit : ℤ} (nonneg : 0 ≤ limit)
    {idleBefore : Option T} {includeActive : Bool} {before after : List OffloadKey} {key other : OffloadKey}
    (listed : t.getCpuPressureCandidates limit idleBefore includeActive = before ++ key :: after)
    (active : Active t key) (chosen : Eligible t idleBefore other) (inactive : ¬Active t other) :
    other ∈ before := by
  have within := candidates_prefix_ranking t nonneg idleBefore includeActive
  rw [listed] at within
  have start : before ++ [key] <+: (ranking t idleBefore).map fun state => state.key := by
    apply List.IsPrefix.trans _ within
    exact ⟨after, by simp⟩
  have cold := (inactive_prefix_ranking t idleBefore).map fun state => state.key
  rcases List.prefix_or_prefix_of_prefix start cold with inside | beyond
  · have member : key ∈ before ++ [key] := by simp
    obtain ⟨state, kept, rfl⟩ := List.mem_map.mp (inside.subset member)
    rw [List.mem_filter] at kept
    obtain ⟨block, found, owned⟩ := active
    have known := (get?_of_mem_ranking named kept.1).1
    obtain rfl := Option.some.inj (found.symm.trans known)
    simp [owned] at kept
  · obtain ⟨state, found, chosen⟩ := chosen
    have idle : state.hasActiveSession t.activeSessions = false := by
      rw [Bool.eq_false_iff]
      exact fun owned => inactive ⟨state, found, owned⟩
    have member : other ∈ before ++ [key] := by
      apply beyond.subset
      refine List.mem_map.mpr ⟨state, ?_, named other state found⟩
      rw [List.mem_filter]
      exact ⟨mem_ranking found chosen, by simp [idle]⟩
    rcases List.mem_append.mp member with earlier | same
    · exact earlier
    · obtain rfl := List.mem_singleton.mp same
      exact absurd active inactive

/-- The order of the candidates without active sessions. -/
theorem candidates_ordered {t : BlockResidencyTracker T} (named : Named t) {limit : ℤ} (nonneg : 0 ≤ limit)
    (idleBefore : Option T) (includeActive : Bool) :
    (t.getCpuPressureCandidates limit idleBefore includeActive).Pairwise fun key later =>
      ∃ colder hotter, t.blocks.get? key = some colder ∧ t.blocks.get? later = some hotter ∧
        (¬Active t key → ¬Active t later → (colder.isShared = true → hotter.isShared = true) ∧
          (colder.isShared = hotter.isShared → colder.accessCount ≤ hotter.accessCount)) := by
  apply List.Pairwise.sublist (candidates_prefix_ranking t nonneg idleBefore includeActive).sublist
  rw [List.pairwise_map]
  refine (pairwise_sortedBy (warmth t.activeSessions) _).imp_of_mem ?_
  intro colder hotter early late le
  have found := (get?_of_mem_ranking named late).1
  refine ⟨colder, hotter, (get?_of_mem_ranking named early).1, found, fun _ inactive => ?_⟩
  apply colder_of_warmth_le le
  rw [Bool.eq_false_iff]
  exact fun owned => inactive ⟨hotter, found, owned⟩

/-- With an age limit no candidate has an active session. -/
theorem inactive_of_idleBefore {t : BlockResidencyTracker T} (tracked : Tracked t) {limit : ℤ} {before : T}
    {includeActive : Bool} {key : OffloadKey}
    (member : key ∈ t.getCpuPressureCandidates limit (some before) includeActive) : ¬Active t key := by
  rw [getCpuPressureCandidates_eq] at member
  obtain ⟨state, sliced, rfl⟩ := List.mem_map.mp member
  have ranked := List.mem_of_mem_filter (mem_of_mem_sliceTo sliced)
  obtain ⟨found, chosen⟩ := get?_of_mem_ranking tracked.indexed.named ranked
  rintro ⟨block, again, owned⟩
  obtain rfl := Option.some.inj (found.symm.trans again)
  have idle : state.idleSince.isSome := by
    cases same : state.idleSince with
    | none => simp [eligible, same] at chosen
    | some since => rfl
  have apart := tracked.marked state.key
  rw [idleOf_of_get? found, owners_of_get? found] at apart
  rw [hasActiveSession_eq_false_iff.mpr (apart idle)] at owned
  cases owned

/-- After any calls, the candidates without blocks of active sessions are the first of all candidates, and such
a block comes after every other eligible one; a smaller limit gives an initial part; candidates without active
sessions are ordered by sharing and then by accesses; and with an age limit there are no others. -/
theorem pressure_selection (maxEntries : ℕ) (maxEntries_pos : 0 < maxEntries) (calls : List (TrackerCall T))
    (idleBefore : Option T) :
    let t := run maxEntries maxEntries_pos calls
    (∀ limit unlimited : ℤ, 0 ≤ limit → t.blocks.size ≤ unlimited →
        t.getCpuPressureCandidates limit idleBefore false <+: t.getCpuPressureCandidates unlimited idleBefore true) ∧
      (∀ (limit : ℤ) includeActive before key after, 0 ≤ limit →
        t.getCpuPressureCandidates limit idleBefore includeActive = before ++ key :: after → Active t key →
          ∀ other, Eligible t idleBefore other → ¬Active t other → other ∈ before) ∧
      (∀ (limit larger : ℤ) includeActive, 0 ≤ limit → limit ≤ larger →
        t.getCpuPressureCandidates limit idleBefore includeActive <+:
          t.getCpuPressureCandidates larger idleBefore includeActive) ∧
      (∀ (limit : ℤ) includeActive, 0 ≤ limit →
        (t.getCpuPressureCandidates limit idleBefore includeActive).Pairwise fun key later =>
          ∃ colder hotter, t.blocks.get? key = some colder ∧ t.blocks.get? later = some hotter ∧
            (¬Active t key → ¬Active t later → (colder.isShared = true → hotter.isShared = true) ∧
              (colder.isShared = hotter.isShared → colder.accessCount ≤ hotter.accessCount))) ∧
      ∀ (limit : ℤ) includeActive, idleBefore.isSome →
        ∀ key ∈ t.getCpuPressureCandidates limit idleBefore includeActive, ¬Active t key := by
  intro t
  have tracked := tracked_run maxEntries maxEntries_pos calls
  have named : Named t := tracked.indexed.named
  refine ⟨fun limit unlimited nonneg room => ?_, fun limit includeActive before key after nonneg listed active => ?_,
    fun limit larger includeActive nonneg more => ?_, fun limit includeActive nonneg => ?_,
    fun limit includeActive given key member => ?_⟩
  · rw [candidates_unlimited t room]
    exact candidates_prefix_ranking t nonneg idleBefore false
  · exact fun other chosen inactive => inactive_before named nonneg listed active chosen inactive
  · rw [getCpuPressureCandidates_eq, getCpuPressureCandidates_eq]
    exact (sliceTo_prefix_sliceTo _ nonneg more).map _
  · exact candidates_ordered named nonneg idleBefore includeActive
  · obtain ⟨before, rfl⟩ := Option.isSome_iff_exists.mp given
    exact inactive_of_idleBefore tracked member

/-- Four blocks on the CPU: one of an active session, one that it shares, one of two idle sessions and one
that an idle session has accessed twice. -/
def fourBlocks : List (TrackerCall ℕ) :=
  [.onSessionActive "s1" 1, .recordAccess "s1" [[1], [2]] 2, .recordAccess "s2" [[2], [3], [4], [4]] 3,
    .recordAccess "s3" [[3]] 4, .direct (.markCpuResident [[1], [2], [3], [4]] true 5), .onSessionIdle "s2" 6]

theorem pressure_selection_fourBlocks :
    (run 9 (by decide) fourBlocks).getCpuPressureCandidates 3 none true = [[4], [3], [1]] ∧
      (run 9 (by decide) fourBlocks).getCpuPressureCandidates 2 none false <+: [[4], [3], [1], [2]] ∧
      ∀ key ∈ (run 9 (by decide) fourBlocks).getCpuPressureCandidates 9 (some 6) true,
        ¬Active (run 9 (by decide) fourBlocks) key := by
  obtain ⟨-, -, -, -, apart⟩ := pressure_selection 9 (by decide) fourBlocks (some 6)
  obtain ⟨cold, -⟩ := pressure_selection 9 (by decide) fourBlocks none
  have whole : (run 9 (by decide) fourBlocks).getCpuPressureCandidates 4 none true = [[4], [3], [1], [2]] := by
    decide +kernel
  refine ⟨by decide +kernel, ?_, apart 9 true rfl⟩
  rw [← whole]
  exact cold 2 4 (by decide) (by decide +kernel)

end KVTiering.Soundness.BlockResidencyTracker
