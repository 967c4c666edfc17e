import KVTiering.Soundness.Residency
import Mathlib.Algebra.Order.Ring.Int
import Mathlib.Data.List.Count

/-! # Transfers in flight

Whether a block is in flight is read off its counter of transfers, as whether the counter has any items. That
is right as long as a counter never keeps a zero, and a block is never dropped and made anew while a transfer
of it runs. Both hold if no transfer finishes that has not started: then every counter is, for each direction,
the number of transfers started less that of transfers finished.
-/

namespace KVTiering.Soundness

open Model

namespace BlockResidencyTracker

open Model.BlockResidencyTracker

/-! ## One counter -/

section Counter

variable {counter : Dict (String × String) ℕ} {transfer other : String × String}

/-- `counter.get(transfer, 0)`. -/
def countOf (counter : Dict (String × String) ℕ) (transfer : String × String) : ℕ :=
  (counter.get? transfer).getD 0

/-- What `start_transfer` does to the counter of one block. -/
def started (transfer : String × String) (counter : Dict (String × String) ℕ) : Dict (String × String) ℕ :=
  counter.set transfer (countOf counter transfer + 1)

/-- What `finish_transfer` does to the counter of one block. -/
def finished (transfer : String × String) (counter : Dict (String × String) ℕ) : Dict (String × String) ℕ :=
  if countOf counter transfer ≤ 1 then counter.erase transfer
  else counter.set transfer (countOf counter transfer - 1)

/-- A counter keeps no zero. -/
def Positive (counter : Dict (String × String) ℕ) : Prop :=
  ∀ transfer count, counter.get? transfer = some count → 0 < count

theorem countOf_started : countOf (started transfer counter) other =
    countOf counter other + if other = transfer then 1 else 0 := by
  rcases eq_or_ne other transfer with rfl | differ
  · simp [countOf, started]
  · simp [countOf, started, differ]

theorem countOf_finished : countOf (finished transfer counter) other =
    countOf counter other - if other = transfer then 1 else 0 := by
  unfold finished
  rcases eq_or_ne other transfer with rfl | differ
  · split
    · next few =>
      rw [countOf, Dict.get?_erase, if_pos rfl, if_pos rfl, Option.getD_none]
      omega
    · rw [countOf, Dict.get?_set, if_pos rfl, if_pos rfl, Option.getD_some]
  · split <;> simp [countOf, differ]

theorem Positive.started (positive : Positive counter) (transfer : String × String) :
    Positive (started transfer counter) := by
  intro other count found
  rw [BlockResidencyTracker.started, Dict.get?_set] at found
  split at found
  · rw [← Option.some.inj found]
    exact Nat.succ_pos _
  · exact positive other count found

theorem Positive.finished (positive : Positive counter) (transfer : String × String) :
    Positive (finished transfer counter) := by
  intro other count found
  unfold BlockResidencyTracker.finished at found
  split at found
  · rw [Dict.get?_erase] at found
    split at found
    · cases found
    · exact positive other count found
  · next many =>
    rw [Dict.get?_set] at found
    split at found
    · rw [← Option.some.inj found]
      omega
    · exact positive other count found

/-- A counter without zeros has items if and only if it counts something. -/
theorem Positive.size_ne_zero_iff (positive : Positive counter) :
    counter.size ≠ 0 ↔ ∃ transfer, 0 < countOf counter transfer := by
  rw [Dict.size, ne_eq, List.length_eq_zero_iff]
  constructor
  · intro some
    obtain ⟨⟨transfer, count⟩, member⟩ := List.exists_mem_of_ne_nil _ some
    have found := Dict.get?_eq_some_iff.mpr member
    exact ⟨transfer, by simpa [countOf, found] using positive transfer count found⟩
  · rintro ⟨transfer, counted⟩ none
    have absent : counter.get? transfer = Option.none := by simp [Dict.get?, none]
    simp [countOf, absent] at counted

theorem countOf_started_iterate (n : ℕ) : countOf ((started transfer)^[n] counter) other =
    countOf counter other + if other = transfer then n else 0 := by
  induction n with
  | zero => simp
  | succ n ih =>
    rw [Function.iterate_succ_apply', countOf_started, ih]
    split <;> omega

theorem countOf_finished_iterate (n : ℕ) : countOf ((finished transfer)^[n] counter) other =
    countOf counter other - if other = transfer then n else 0 := by
  induction n with
  | zero => simp
  | succ n ih =>
    rw [Function.iterate_succ_apply', countOf_finished, ih]
    split <;> omega

theorem Positive.iterate {f : Dict (String × String) ℕ → Dict (String × String) ℕ}
    (kept : ∀ counter, Positive counter → Positive (f counter)) (positive : Positive counter) (n : ℕ) :
    Positive (f^[n] counter) := by
  induction n with
  | zero => exact positive
  | succ n ih =>
    rw [Function.iterate_succ_apply']
    exact kept _ ih

end Counter

/-! ## The counters of the tracker -/

variable {T : Type} {t : BlockResidencyTracker T}

/-- The counter of a block. -/
def transfersOf (t : BlockResidencyTracker T) (key : OffloadKey) : Dict (String × String) ℕ :=
  fieldOf (fun state => state.inflightTransfers) .empty t key

theorem transfersOf_of_get? {key : OffloadKey} {state : BlockResidencyState T}
    (found : t.blocks.get? key = some state) : transfersOf t key = state.inflightTransfers := fieldOf_of_get? found

theorem transfersOf_startTransfer (keys : List OffloadKey) (source target : String) (now : T)
    (key : OffloadKey) : transfersOf (t.startTransfer keys source target now) key =
      (started (source, target))^[keys.count key] (transfersOf t key) := by
  unfold startTransfer
  induction keys generalizing t with
  | nil => rfl
  | cons head rest ih =>
    rw [List.foldl_cons, ih, List.count_cons]
    rcases eq_or_ne key head with rfl | differ
    · have first : transfersOf (t.touch key now fun state => { state with
          inflightTransfers := state.inflightTransfers.set (source, target)
            ((state.inflightTransfers.get? (source, target)).getD 0 + 1) }) key =
          started (source, target) (transfersOf t key) := by
        cases found : t.blocks.get? key <;>
          simp [transfersOf, fieldOf, get?_touch, found, started, countOf, BlockResidencyState.init]
      rw [first, beq_self_eq_true, if_pos rfl, Function.iterate_succ_apply]
    · rw [if_neg (by simpa using differ.symm), Nat.add_zero]
      congr 1
      simp [transfersOf, fieldOf, get?_touch, differ]

theorem finished_empty (transfer : String × String) : finished transfer .empty = .empty := rfl

theorem transfersOf_finishTransfer (keys : List OffloadKey) (source target : String) (key : OffloadKey) :
    transfersOf (t.finishTransfer keys source target) key =
      (finished (source, target))^[keys.count key] (transfersOf t key) := by
  unfold finishTransfer
  induction keys generalizing t with
  | nil => rfl
  | cons head rest ih =>
    rw [List.foldl_cons, ih, List.count_cons]
    rcases eq_or_ne key head with rfl | differ
    · rw [beq_self_eq_true, if_pos rfl, Function.iterate_succ_apply]
      congr 1
      cases found : t.blocks.get? key with
      | none => simp [transfersOf, fieldOf, found, finished_empty]
      | some state => simp [transfersOf, fieldOf, found, finished, countOf]
    · rw [if_neg (by simpa using differ.symm), Nat.add_zero]
      congr 1
      cases found : t.blocks.get? head with
      | none => rfl
      | some state => simp [transfersOf, fieldOf, differ]

/-! ## The history of transfers -/

/-- How often a call starts a transfer of a key. -/
def startsOf (key : OffloadKey) (transfer : String × String) : TrackerCall T → ℕ
  | .direct (.startTransfer keys source target _) => if transfer = (source, target) then keys.count key else 0
  | _ => 0

/-- How often a call finishes a transfer of a key. -/
def finishesOf (key : OffloadKey) (transfer : String × String) : TrackerCall T → ℕ
  | .direct (.finishTransfer keys source target) => if transfer = (source, target) then keys.count key else 0
  | _ => 0

def starts (calls : List (TrackerCall T)) (key : OffloadKey) (transfer : String × String) : ℕ :=
  (calls.map (startsOf key transfer)).sum

def finishes (calls : List (TrackerCall T)) (key : OffloadKey) (transfer : String × String) : ℕ :=
  (calls.map (finishesOf key transfer)).sum

/-- What holds after every run in which no transfer finishes that has not started. -/
structure Accounted (maxEntries : ℕ) (calls : List (TrackerCall T)) (t : BlockResidencyTracker T) : Prop where
  indexed : Indexed t
  maxEntries : t.maxEntries = maxEntries
  positive : ∀ key, Positive (transfersOf t key)
  balance : ∀ key transfer, countOf (transfersOf t key) transfer + finishes calls key transfer =
    starts calls key transfer

/-- In flight, read off the counter of a tracked block. -/
theorem hasInflightTransfer_iff {maxEntries : ℕ} {calls : List (TrackerCall T)}
    (accounted : Accounted maxEntries calls t) {key : OffloadKey} {state : BlockResidencyState T}
    (found : t.blocks.get? key = some state) : state.hasInflightTransfer = true ↔
      ∃ transfer, finishes calls key transfer < starts calls key transfer := by
  have positive := accounted.positive key
  rw [transfersOf_of_get? found] at positive
  rw [BlockResidencyState.hasInflightTransfer, decide_eq_true_eq, positive.size_ne_zero_iff]
  refine exists_congr fun transfer => ?_
  have balance := accounted.balance key transfer
  rw [transfersOf_of_get? found] at balance
  omega

/-- A key with a transfer outstanding is tracked. -/
theorem tracked_of_outstanding {maxEntries : ℕ} {calls : List (TrackerCall T)}
    (accounted : Accounted maxEntries calls t) {key : OffloadKey} {transfer : String × String}
    (outstanding : finishes calls key transfer < starts calls key transfer) :
    ∃ state, t.blocks.get? key = some state ∧ state.hasInflightTransfer = true := by
  have balance := accounted.balance key transfer
  cases found : t.blocks.get? key with
  | none => simp [transfersOf, fieldOf, found, countOf] at balance; omega
  | some state => exact ⟨state, rfl, (hasInflightTransfer_iff accounted found).mpr ⟨transfer, outstanding⟩⟩

theorem mem_getInflightKeys (named : Named t) {key : OffloadKey} : key ∈ t.getInflightKeys ↔
    ∃ state, t.blocks.get? key = some state ∧ state.hasInflightTransfer = true := by
  simp only [getInflightKeys, List.mem_toFinset, List.mem_map, List.mem_filter, Dict.mem_values_iff]
  constructor
  · rintro ⟨state, ⟨⟨other, found⟩, inflight⟩, rfl⟩
    rw [named other state found]
    exact ⟨state, found, inflight⟩
  · rintro ⟨state, found, inflight⟩
    exact ⟨state, ⟨⟨key, found⟩, inflight⟩, named key state found⟩

/-- A candidate of either kind is not in flight. -/
theorem settled_of_candidate (named : Named t) {candidates : List (BlockResidencyState T)} {limit : ℤ}
    (tracked : ∀ state ∈ candidates, state ∈ t.blocks.values ∧ state.hasInflightTransfer = false)
    {key : OffloadKey} (member : key ∈ (sliceTo candidates limit).map fun state => state.key) :
    ∃ state, t.blocks.get? key = some state ∧ state.hasInflightTransfer = false := by
  obtain ⟨state, chosen, rfl⟩ := List.mem_map.mp member
  obtain ⟨inside, settled⟩ := tracked state (mem_of_mem_sliceTo chosen)
  obtain ⟨key, found⟩ := Dict.mem_values_iff.mp inside
  rw [named key state found]
  exact ⟨state, found, settled⟩

/-! ## Pruning -/

variable [LinearOrder T]

/-- `prune` drops empty counters only. -/
theorem transfersOf_prune (named : Named t) (key : OffloadKey) : transfersOf t.prune.2 key = transfersOf t key := by
  simp only [prune]
  split
  · rfl
  · simp only [transfersOf, fieldOf, Dict.get?_eraseAll]
    split
    · next pruned =>
      obtain ⟨state, member, rfl⟩ := List.mem_map.mp pruned
      have candidate := List.mem_of_mem_take member
      simp only [mem_sortedBy, List.mem_filter, Bool.and_eq_true, Bool.not_eq_true'] at candidate
      obtain ⟨inside, _, settled⟩ := candidate
      obtain ⟨key, found⟩ := Dict.mem_values_iff.mp inside
      rw [named key state found, found]
      simp only [BlockResidencyState.hasInflightTransfer, Dict.size, ne_eq, decide_eq_false_iff_not, not_not,
        List.length_eq_zero_iff] at settled
      simp only [Option.map_none, Option.getD_none, Option.map_some, Option.getD_some, Dict.empty]
      cases counter : state.inflightTransfers
      simp_all
    · rfl

/-- The blocks that `prune` may drop. -/
def droppable (state : BlockResidencyState T) : Bool :=
  decide (state.sessionIds = ∅) && !state.cpuResident && !state.hasInflightTransfer

/-- The blocks that it drops, in the order in which it does. -/
def dropped (t : BlockResidencyTracker T) : List (BlockResidencyState T) :=
  (sortedBy (fun state => state.lastAccessAt) (t.blocks.values.filter droppable)).take
    (t.blocks.size - t.maxEntries)

theorem prune_eq (t : BlockResidencyTracker T) : t.prune = ((dropped t).length,
    { t with blocks := t.blocks.eraseAll ((dropped t).map fun state => state.key) }) := by
  unfold prune dropped
  dsimp only
  split
  · next none => rw [none, List.take_zero, List.map_nil, List.length_nil, Dict.eraseAll, List.foldl_nil]
  · rw [List.length_take]
    rfl

theorem mem_of_mem_dropped {state : BlockResidencyState T} (member : state ∈ dropped t) :
    state ∈ t.blocks.values ∧ droppable state = true := by
  simpa only [mem_sortedBy, List.mem_filter] using List.mem_of_mem_take member

theorem get?_of_mem_dropped (named : Named t) {state : BlockResidencyState T} (member : state ∈ dropped t) :
    t.blocks.get? state.key = some state := by
  obtain ⟨key, found⟩ := Dict.mem_values_iff.mp (mem_of_mem_dropped member).1
  rw [named key state found, found]

theorem nodup_dropped (named : Named t) : ((dropped t).map fun state => state.key).Nodup := by
  have keys : (t.blocks.values.map fun state => state.key) = t.blocks.keys := by
    rw [Dict.values, Dict.keys, List.map_map]
    exact List.map_congr_left fun item member => named item.1 item.2 (Dict.get?_eq_some_iff.mpr member)
  have distinct : (t.blocks.values.map fun state => state.key).Nodup := keys ▸ t.blocks.nodup
  have eligible := distinct.sublist ((List.filter_sublist (p := droppable)).map fun state => state.key)
  have sorted := perm_sortedBy (fun state : BlockResidencyState T => state.lastAccessAt)
    (t.blocks.values.filter droppable)
  exact ((sorted.map _).nodup_iff.mpr eligible).sublist ((List.take_sublist _ _).map _)

theorem size_prune (named : Named t) : t.prune.2.blocks.size + t.prune.1 = t.blocks.size := by
  have split := Dict.size_eraseAll (d := t.blocks) (nodup_dropped named) fun key member => by
    obtain ⟨state, inside, rfl⟩ := List.mem_map.mp member
    rw [get?_of_mem_dropped named inside, Option.isSome_some]
  rw [List.length_map] at split
  rw [prune_eq]
  exact split

/-- A block stays, as it is, unless it is dropped. -/
theorem get?_prune (named : Named t) {key : OffloadKey} {state : BlockResidencyState T}
    (found : t.blocks.get? key = some state) :
    t.prune.2.blocks.get? key = some state ∧ state ∉ dropped t ∨
      t.prune.2.blocks.get? key = none ∧ state ∈ dropped t := by
  have gone : key ∈ (dropped t).map (fun state => state.key) ↔ state ∈ dropped t := by
    constructor
    · intro member
      obtain ⟨other, inside, rfl⟩ := List.mem_map.mp member
      have known := get?_of_mem_dropped named inside
      rw [found] at known
      rwa [Option.some.inj known]
    · exact fun member => List.mem_map.mpr ⟨state, member, named key state found⟩
  rw [prune_eq, Dict.get?_eraseAll, found]
  by_cases member : state ∈ dropped t
  · exact .inr ⟨if_pos (gone.mpr member), member⟩
  · exact .inl ⟨if_neg fun inside => member (gone.mp inside), member⟩

theorem get?_of_get?_prune {key : OffloadKey} {state : BlockResidencyState T}
    (found : t.prune.2.blocks.get? key = some state) : t.blocks.get? key = some state := by
  rw [prune_eq, Dict.get?_eraseAll] at found
  split at found
  · cases found
  · exact found

/-- Either the bound is met, or there was nothing more to drop. -/
theorem prune_bound (named : Named t) : t.prune.2.blocks.size ≤ t.maxEntries ∨
    ∀ key state, t.prune.2.blocks.get? key = some state → droppable state = false := by
  have size := size_prune named
  have count : t.prune.1 = (dropped t).length := by rw [prune_eq]
  rcases Nat.lt_or_ge (dropped t).length (t.blocks.size - t.maxEntries) with few | enough
  · right
    intro key state found
    have known := get?_of_get?_prune found
    by_contra eligible
    rw [Bool.not_eq_false] at eligible
    have whole : dropped t = sortedBy (fun state => state.lastAccessAt) (t.blocks.values.filter droppable) := by
      rw [dropped, List.length_take] at few
      exact List.take_of_length_le (by omega)
    have member : state ∈ dropped t := by
      rw [whole, mem_sortedBy, List.mem_filter]
      exact ⟨Dict.mem_values_iff.mpr ⟨key, known⟩, eligible⟩
    rcases get?_prune named known with ⟨_, spared⟩ | ⟨absent, _⟩
    · exact spared member
    · rw [absent] at found
      cases found
  · left
    omega

/-- Nothing that is dropped was accessed after something that could have been dropped instead. -/
theorem le_of_dropped (named : Named t) {key : OffloadKey} {state gone : BlockResidencyState T}
    (member : gone ∈ dropped t) (found : t.prune.2.blocks.get? key = some state)
    (eligible : droppable state = true) : gone.lastAccessAt ≤ state.lastAccessAt := by
  have known := get?_of_get?_prune found
  have spared : state ∉ dropped t := by
    rcases get?_prune named known with ⟨_, spared⟩ | ⟨absent, _⟩
    · exact spared
    · rw [absent] at found
      cases found
  have candidate : state ∈ sortedBy (fun state => state.lastAccessAt) (t.blocks.values.filter droppable) := by
    rw [mem_sortedBy, List.mem_filter]
    exact ⟨Dict.mem_values_iff.mpr ⟨key, known⟩, eligible⟩
  rw [← List.take_append_drop (t.blocks.size - t.maxEntries) (sortedBy _ _), List.mem_append] at candidate
  exact le_of_mem_take_of_mem_drop member (candidate.resolve_left spared)

/-! ## Runs -/

/-- What one call does to the counter of a key. -/
theorem countOf_step [Zero T] (named : Named t) (call : TrackerCall T) (key : OffloadKey)
    (transfer : String × String) : countOf (transfersOf (t.step call) key) transfer =
      countOf (transfersOf t key) transfer + startsOf key transfer call - finishesOf key transfer call ∧
        (Positive (transfersOf t key) → Positive (transfersOf (t.step call) key)) := by
  have neutral : ∀ t' : BlockResidencyTracker T, transfersOf t' key = transfersOf t key →
      countOf (transfersOf t' key) transfer = countOf (transfersOf t key) transfer + 0 - 0 ∧
        (Positive (transfersOf t key) → Positive (transfersOf t' key)) := by
    intro t' same
    rw [same]
    exact ⟨rfl, id⟩
  have loop : ∀ (body : BlockResidencyTracker T → OffloadKey → BlockResidencyTracker T) (keys : List OffloadKey),
      (∀ t value other, transfersOf (body t value) other = transfersOf t other) →
      transfersOf (keys.foldl body t) key = transfersOf t key :=
    fun body keys kept => fieldOf_foldl kept keys key
  cases call with
  | onSessionActive sessionId now =>
    apply neutral
    refine fieldOf_mapValues key fun state => ?_
    split <;> rfl
  | onSessionIdle sessionId now =>
    apply neutral
    refine fieldOf_mapValues key fun state => ?_
    split <;> rfl
  | recordAccess sessionId keys now =>
    apply neutral
    refine loop (recordOne sessionId now) keys fun t value other => fieldOf_touch (fun _ _ => rfl) value now ?_ other
    exact fun _ => rfl
  | releaseSession sessionId now =>
    apply neutral
    refine fieldOf_mapValues key fun state => ?_
    dsimp only
    split <;> [split <;> [rfl; split <;> rfl]; rfl]
  | direct call =>
    cases call with
    | markCpuResident keys resident now =>
      apply neutral
      refine loop _ keys fun t value other => fieldOf_touch (fun _ _ => rfl) value now ?_ other
      exact fun _ => rfl
    | markSecondaryResident keys tier resident now =>
      apply neutral
      refine loop _ keys fun t value other => fieldOf_touch (fun _ _ => rfl) value now ?_ other
      exact fun _ => rfl
    | startTransfer keys source target now =>
      have counter := transfersOf_startTransfer (t := t) keys source target now key
      change countOf (transfersOf (t.startTransfer keys source target now) key) transfer = _ ∧
        (_ → Positive (transfersOf (t.startTransfer keys source target now) key))
      rw [counter, countOf_started_iterate]
      exact ⟨rfl, fun positive => positive.iterate (fun _ kept => kept.started (source, target)) _⟩
    | finishTransfer keys source target =>
      have counter := transfersOf_finishTransfer (t := t) keys source target key
      change countOf (transfersOf (t.finishTransfer keys source target) key) transfer = _ ∧
        (_ → Positive (transfersOf (t.finishTransfer keys source target) key))
      rw [counter, countOf_finished_iterate]
      exact ⟨rfl, fun positive => positive.iterate (fun _ kept => kept.finished (source, target)) _⟩
    | clearCpuResidency =>
      apply neutral
      exact fieldOf_mapValues key fun _ => rfl
    | prune =>
      apply neutral
      exact transfersOf_prune named key

variable [Zero T]

theorem indexed_step (indexed : Indexed t) (call : TrackerCall T) : Indexed (t.step call) := by
  cases call with
  | onSessionActive sessionId now => exact (onSessionActive_spec indexed sessionId now).1
  | onSessionIdle sessionId now => exact (onSessionIdle_spec indexed sessionId now).1
  | recordAccess sessionId keys now => exact (recordAccess_spec indexed sessionId keys now).1
  | releaseSession sessionId now => exact (releaseSession_spec indexed sessionId now).1
  | direct call => exact (sameIndex_call indexed.named call).indexed indexed

theorem maxEntries_step (t : BlockResidencyTracker T) (call : TrackerCall T) :
    (t.step call).maxEntries = t.maxEntries := by
  have loop : ∀ (body : BlockResidencyTracker T → OffloadKey → BlockResidencyTracker T) (keys : List OffloadKey),
      (∀ t key, (body t key).maxEntries = t.maxEntries) → (keys.foldl body t).maxEntries = t.maxEntries :=
    fun body keys kept => List.foldlRecOn keys body (motive := fun t' => t'.maxEntries = t.maxEntries) rfl
      fun _ same key _ => (kept _ key).trans same
  cases call with
  | recordAccess sessionId keys now => exact loop (recordOne sessionId now) keys fun _ _ => rfl
  | direct call =>
    cases call with
    | markCpuResident keys resident now => exact loop _ keys fun _ _ => rfl
    | markSecondaryResident keys tier resident now => exact loop _ keys fun _ _ => rfl
    | startTransfer keys source target now => exact loop _ keys fun _ _ => rfl
    | finishTransfer keys source target =>
      refine loop _ keys fun t key => ?_
      cases t.blocks.get? key <;> rfl
    | clearCpuResidency => rfl
    | prune =>
      change t.prune.2.maxEntries = t.maxEntries
      rw [prune_eq]
  | _ => rfl

theorem accounted_run (maxEntries : ℕ) (maxEntries_pos : 0 < maxEntries) (calls : List (TrackerCall T))
    (balanced : ∀ before, before <+: calls → ∀ key transfer,
      finishes before key transfer ≤ starts before key transfer) :
    Accounted maxEntries calls (run maxEntries maxEntries_pos calls) := by
  induction calls using List.reverseRecOn with
  | nil => exact ⟨indexed_init _ _, rfl, fun _ _ _ found => (nomatch found), fun _ _ => rfl⟩
  | append_singleton calls call ih =>
    obtain ⟨indexed, maxEntries, positive, balance⟩ := ih fun before within =>
      balanced before (within.trans (List.prefix_append calls [call]))
    have next : run _ maxEntries_pos (calls ++ [call]) = (run _ maxEntries_pos calls).step call := by
      rw [run, List.foldl_concat, run]
    rw [next]
    refine ⟨indexed_step indexed call, (maxEntries_step _ call).trans maxEntries, fun key => ?_,
      fun key transfer => ?_⟩
    · exact (countOf_step indexed.named call key ("", "")).2 (positive key)
    · have enough := balanced (calls ++ [call]) List.prefix_rfl key transfer
      have before := balance key transfer
      simp only [starts, finishes, List.map_append, List.sum_append, List.map_singleton, List.sum_singleton]
        at enough before ⊢
      rw [(countOf_step indexed.named call key transfer).1]
      omega

theorem settled_of_idle (named : Named t) {limit : ℤ} {idleBefore : Option T} {key : OffloadKey}
    (member : key ∈ t.getIdleCpuCandidates limit idleBefore) :
    ∃ state, t.blocks.get? key = some state ∧ state.hasInflightTransfer = false := by
  refine settled_of_candidate named (fun state candidate => ?_) member
  simp only [mem_sortedBy, List.mem_filter, Bool.and_eq_true, Bool.not_eq_true'] at candidate
  obtain ⟨inside, ⟨⟨⟨⟨_, settled⟩, _⟩, _⟩, _⟩, _⟩ := candidate
  exact ⟨inside, settled⟩

theorem settled_of_pressure (named : Named t) {limit : ℤ} {idleBefore : Option T} {includeActive : Bool}
    {key : OffloadKey} (member : key ∈ t.getCpuPressureCandidates limit idleBefore includeActive) :
    ∃ state, t.blocks.get? key = some state ∧ state.hasInflightTransfer = false := by
  refine settled_of_candidate named (fun state candidate => ?_) member
  simp only [mem_sortedBy, List.mem_filter, Bool.and_eq_true, Bool.not_eq_true'] at candidate
  obtain ⟨inside, ⟨⟨_, settled⟩, _⟩, _⟩ := candidate
  exact ⟨inside, settled⟩

/-- If no transfer finishes that has not started, a key is in flight exactly while a transfer of it is
outstanding, and is neither pruned nor offered for demotion meanwhile; and pruning drops the least recently
accessed blocks that nobody needs, until the bound is met or there are none left. -/
theorem transfers_never_forgotten (maxEntries : ℕ) (maxEntries_pos : 0 < maxEntries)
    (calls : List (TrackerCall T)) (balanced : ∀ before, before <+: calls → ∀ key transfer,
      finishes before key transfer ≤ starts before key transfer) :
    let t := run maxEntries maxEntries_pos calls
    let pruned := t.prune
    (∀ key, key ∈ t.getInflightKeys ↔ ∃ transfer, finishes calls key transfer < starts calls key transfer) ∧
      (∀ key transfer, finishes calls key transfer < starts calls key transfer →
        (pruned.2.blocks.get? key).isSome ∧ pruned.2.blocks.get? key = t.blocks.get? key ∧
          (∀ limit idleBefore, key ∉ t.getIdleCpuCandidates limit idleBefore) ∧
          ∀ limit idleBefore includeActive, key ∉ t.getCpuPressureCandidates limit idleBefore includeActive) ∧
      (pruned.2.blocks.size ≤ maxEntries ∨ ∀ key state, pruned.2.blocks.get? key = some state →
        state.sessionIds ≠ ∅ ∨ state.cpuResident = true ∨ state.hasInflightTransfer = true) ∧
      (∀ key gone, t.blocks.get? key = some gone → pruned.2.blocks.get? key = none →
        droppable gone = true ∧ ∀ other state, pruned.2.blocks.get? other = some state →
          droppable state = true → gone.lastAccessAt ≤ state.lastAccessAt) ∧
      (∀ key state, pruned.2.blocks.get? key = some state → t.blocks.get? key = some state) ∧
      pruned.2.blocks.size + pruned.1 = t.blocks.size := by
  intro t pruned
  have accounted := accounted_run maxEntries maxEntries_pos calls balanced
  have named : Named t := accounted.indexed.named
  refine ⟨fun key => ?_, fun key transfer outstanding => ?_, ?_, fun key gone found absent => ?_,
    fun key state => get?_of_get?_prune, size_prune named⟩
  · rw [mem_getInflightKeys named]
    constructor
    · rintro ⟨state, found, inflight⟩
      exact (hasInflightTransfer_iff accounted found).mp inflight
    · rintro ⟨transfer, outstanding⟩
      exact tracked_of_outstanding accounted outstanding
  · obtain ⟨state, found, inflight⟩ := tracked_of_outstanding accounted outstanding
    have unsettled : ¬ ∃ other, t.blocks.get? key = some other ∧ other.hasInflightTransfer = false := by
      rintro ⟨other, known, settled⟩
      rw [found] at known
      rw [← Option.some.inj known, inflight] at settled
      cases settled
    rcases get?_prune named found with ⟨kept, _⟩ | ⟨_, member⟩
    · exact ⟨by rw [kept, Option.isSome_some], kept.trans found.symm,
        fun _ _ candidate => unsettled (settled_of_idle named candidate),
        fun _ _ _ candidate => unsettled (settled_of_pressure named candidate)⟩
    · have eligible := (mem_of_mem_dropped member).2
      simp [droppable, inflight] at eligible
  · rcases prune_bound named with bounded | needed
    · left
      rwa [accounted.maxEntries] at bounded
    · right
      intro key state found
      have kept := needed key state found
      simp only [droppable, Bool.and_eq_false_iff, decide_eq_false_iff_not, Bool.not_eq_false'] at kept
      tauto
  · rcases get?_prune named found with ⟨kept, _⟩ | ⟨_, member⟩
    · rw [absent] at kept
      cases kept
    · exact ⟨(mem_of_mem_dropped member).2, fun other state known eligible =>
        le_of_dropped named member known eligible⟩

/-- Two overlapping transfers of a block, and a finished one of another. -/
def overlappingCalls : List (TrackerCall ℕ) :=
  [.direct (.startTransfer [[1], [2]] "cpu" "fs" 1), .direct (.startTransfer [[1]] "cpu" "fs" 2),
    .direct (.finishTransfer [[1], [2]] "cpu" "fs"), .direct .prune]

theorem balanced_overlappingCalls (before : List (TrackerCall ℕ)) (within : before <+: overlappingCalls)
    (key : OffloadKey) (transfer : String × String) : finishes before key transfer ≤ starts before key transfer := by
  rw [← List.mem_inits] at within
  simp only [overlappingCalls, List.inits, List.map_cons, List.map_nil, List.mem_cons, List.not_mem_nil,
    or_false] at within
  rcases within with rfl | rfl | rfl | rfl | rfl <;> simp [finishes, starts, finishesOf, startsOf]

theorem transfers_never_forgotten_overlappingCalls :
    [1] ∈ (run 1 (by decide) overlappingCalls).getInflightKeys ∧
      [2] ∉ (run 1 (by decide) overlappingCalls).getInflightKeys := by
  have forgotten := transfers_never_forgotten 1 (by decide) overlappingCalls balanced_overlappingCalls
  constructor
  · exact (forgotten.1 [1]).mpr ⟨("cpu", "fs"), by decide⟩
  · rw [forgotten.1]
    rintro ⟨transfer, outstanding⟩
    by_cases same : transfer = ("cpu", "fs")
    · subst same
      revert outstanding
      decide
    · simp [finishes, starts, finishesOf, startsOf, overlappingCalls, same] at outstanding

end BlockResidencyTracker

end KVTiering.Soundness
