import KVTiering.Soundness.CopyPlan
import Mathlib.Algebra.Order.Ring.Int
import Mathlib.Data.List.GetD
import Mathlib.Order.Interval.Finset.Nat

/-! # Which transfers are accepted

`copyPlan` accepts a transfer exactly when its lists fit one another: as many device blocks as the groups
have logical blocks, and as many CPU blocks as their windows touch chunks. The plan is then determined,
entry by entry, and every other transfer is refused with a `ValueError`.
-/

namespace KVTiering.Soundness.PlanAcceptance

open Model

/-- The chunks of `factor` logical blocks that hold a block of the window. -/
def touched (factor : ℕ) (size logical : ℤ) : Finset ℕ :=
  (Finset.range size.toNat).image fun index => (logical.toNat + index) / factor

/-- What a well-formed transfer is. -/
structure Accepts (gpuSpec : GPULoadStoreSpec) (cpuSpec : CPULoadStoreSpec)
    (refs : List (List CanonicalKVCacheRef)) (factor : ℤ) : Prop where
  factor_pos : 1 ≤ factor
  indices : gpuSpec.groupSizes.length = gpuSpec.blockIndices.length
  groups : gpuSpec.blockIndices.length = refs.length
  sizes_nonneg : ∀ size ∈ gpuSpec.groupSizes, 0 ≤ size
  indices_nonneg : ∀ logical ∈ gpuSpec.blockIndices, 0 ≤ logical
  gpu_blocks : gpuSpec.groupSizes.sum = gpuSpec.blockIds.length
  cpu_blocks : ((gpuSpec.groupSizes.zip gpuSpec.blockIndices).map fun group =>
    (touched factor.toNat group.1 group.2).card).sum = cpuSpec.blockIds.length

/-- The entries of a group whose blocks begin at the two offsets. -/
def groupEntries (gpuSpec : GPULoadStoreSpec) (cpuSpec : CPULoadStoreSpec) (factor gpuOffset cpuOffset : ℕ)
    (group : PlanItem) : List PlanEntry :=
  let logical := group.2.1.toNat
  group.2.2.flatMap fun ref => (List.range group.1.toNat).map fun index =>
    ⟨ref.tensorIdx, gpuSpec.blockIds.getD (gpuOffset + index) 0,
      cpuSpec.blockIds.getD (cpuOffset + ((logical + index) / factor - logical / factor)) 0,
      (logical + index) % factor, ref.pageSizeBytes⟩

/-- The number of device blocks of the earlier groups. -/
def gpuOffset (gpuSpec : GPULoadStoreSpec) (group : ℕ) : ℕ :=
  ((gpuSpec.groupSizes.take group).map Int.toNat).sum

/-- The number of chunks of the earlier groups. -/
def cpuOffset (gpuSpec : GPULoadStoreSpec) (factor group : ℕ) : ℕ :=
  (((gpuSpec.groupSizes.zip gpuSpec.blockIndices).take group).map fun earlier =>
    (touched factor earlier.1 earlier.2).card).sum

/-- The entries of one group of a transfer. -/
def groupPlan (gpuSpec : GPULoadStoreSpec) (cpuSpec : CPULoadStoreSpec)
    (refs : List (List CanonicalKVCacheRef)) (factor group : ℕ) : List PlanEntry :=
  groupEntries gpuSpec cpuSpec factor (gpuOffset gpuSpec group) (cpuOffset gpuSpec factor group)
    (gpuSpec.groupSizes.getD group 0, gpuSpec.blockIndices.getD group 0, refs.getD group [])

/-- The plan of a well-formed transfer. -/
def transferPlan (gpuSpec : GPULoadStoreSpec) (cpuSpec : CPULoadStoreSpec)
    (refs : List (List CanonicalKVCacheRef)) (factor : ℕ) : List PlanEntry :=
  (List.range refs.length).flatMap (groupPlan gpuSpec cpuSpec refs factor)

/-! ### Chunks of a window -/

/-- A window touches an interval of chunks. -/
theorem touched_eq_Icc {factor size : ℕ} (logical : ℕ) (positive : 0 < factor) (nonempty : size ≠ 0) :
    touched factor size logical = Finset.Icc (logical / factor) ((logical + size - 1) / factor) := by
  ext chunk
  simp only [touched, Int.toNat_natCast, Finset.mem_image, Finset.mem_range, Finset.mem_Icc]
  constructor
  · rintro ⟨index, inside, rfl⟩
    exact ⟨Nat.div_le_div_right (by omega), Nat.div_le_div_right (by omega)⟩
  · rintro ⟨first, last⟩
    have stop := (Nat.le_div_iff_mul_le positive).mp last
    rcases Nat.lt_or_ge (chunk * factor) logical with before | behind
    · have same : chunk = logical / factor :=
        Nat.le_antisymm ((Nat.le_div_iff_mul_le positive).mpr (Nat.le_of_lt before)) first
      exact ⟨0, by omega, by rw [Nat.add_zero, same]⟩
    · refine ⟨chunk * factor - logical, by omega, ?_⟩
      rw [Nat.add_sub_cancel' behind, Nat.mul_div_cancel _ positive]

/-- The count of the source is the number of chunks touched. -/
theorem card_touched {factor : ℕ} (positive : 0 < factor) (size logical : ℤ) (nonempty : size.toNat ≠ 0) :
    (size.toNat + logical.toNat % factor + factor - 1) / factor = (touched factor size logical).card := by
  have interval := touched_eq_Icc logical.toNat positive nonempty
  have same : touched factor size logical = touched factor size.toNat logical.toNat := by
    simp only [touched, Int.toNat_natCast]
  rw [same, interval, Nat.card_Icc]
  have window : (Window.mk 0 size.toNat logical.toNat).size ≠ 0 := nonempty
  rw [chunkCount_eq positive window, Window.chunkCount, if_neg window]

theorem card_touched_zero {factor : ℕ} {size : ℤ} (empty : size.toNat = 0) (logical : ℤ) :
    (touched factor size logical).card = 0 := by
  simp [touched, empty]

/-- The chunk of a block of the window, counted from the first. -/
theorem chunk_lt_card {factor : ℕ} (positive : 0 < factor) {size : ℤ} (logical : ℤ) {index : ℕ}
    (inside : index < size.toNat) :
    (logical.toNat % factor + index) / factor < (touched factor size logical).card := by
  rw [← card_touched positive size logical (by omega), Nat.div_lt_iff_lt_mul positive]
  have whole := Nat.lt_div_mul_add (a := size.toNat + logical.toNat % factor + factor - 1) positive
  omega

/-! ### The loop over the groups -/

section Loop

variable {gpuSpec : GPULoadStoreSpec} {cpuSpec : CPULoadStoreSpec} {factor : ℕ}

/-- The blocks and the chunks of a list of groups. -/
def blockCount (items : List PlanItem) : ℕ := (items.map fun item => item.1.toNat).sum

def chunkCount (factor : ℕ) (items : List PlanItem) : ℕ :=
  (items.map fun item => (touched factor item.1 item.2.1).card).sum

/-- The entries of a list of groups, each behind the groups before it. -/
def entriesFrom (gpuSpec : GPULoadStoreSpec) (cpuSpec : CPULoadStoreSpec) (factor : ℕ) :
    ℕ → ℕ → List PlanItem → List PlanEntry
  | _, _, [] => []
  | gpuOffset, cpuOffset, item :: rest =>
    groupEntries gpuSpec cpuSpec factor gpuOffset cpuOffset item ++
      entriesFrom gpuSpec cpuSpec factor (gpuOffset + item.1.toNat)
        (cpuOffset + (touched factor item.1 item.2.1).card) rest

/-- With both block lists long enough, the inner loops list the entries of a group. -/
theorem groupLoop_eq (positive : 0 < factor) (state : PlanState) (item : PlanItem)
    (gpuRoom : state.gpuOffset + item.1.toNat ≤ gpuSpec.blockIds.length)
    (cpuRoom : state.cpuOffset + (touched factor item.1 item.2.1).card ≤ cpuSpec.blockIds.length) :
    loop (fun plan ref => loop (addPlanEntry gpuSpec cpuSpec factor state (item.2.1.toNat % factor) ref) plan
      (List.range item.1.toNat)) state.plan item.2.2 =
        .ok (state.plan ++ groupEntries gpuSpec cpuSpec factor state.gpuOffset state.cpuOffset item) := by
  refine loop_collect (fun ref _ plan => ?_) state.plan
  have each : ∀ index ∈ List.range item.1.toNat, ∀ plan,
      addPlanEntry gpuSpec cpuSpec factor state (item.2.1.toNat % factor) ref plan index = .ok (plan ++
        [⟨ref.tensorIdx, gpuSpec.blockIds.getD (state.gpuOffset + index) 0,
          cpuSpec.blockIds.getD
            (state.cpuOffset + ((item.2.1.toNat + index) / factor - item.2.1.toNat / factor)) 0,
          (item.2.1.toNat + index) % factor, ref.pageSizeBytes⟩]) := by
    intro index inside plan
    have inside := List.mem_range.mp inside
    have chunk := chunk_lt_card positive item.2.1 inside
    have shifted : (item.2.1.toNat + index) / factor - item.2.1.toNat / factor =
        (item.2.1.toNat % factor + index) / factor := by
      rw [add_div_chunk positive, Nat.add_sub_cancel_left]
    have inCpu : state.cpuOffset + (item.2.1.toNat % factor + index) / factor < cpuSpec.blockIds.length :=
      Nat.lt_of_lt_of_le (Nat.add_lt_add_left chunk _) cpuRoom
    have device : gpuSpec.blockIds[state.gpuOffset + index]? =
        some (gpuSpec.blockIds.getD (state.gpuOffset + index) 0) := by
      rw [List.getD_eq_getElem?_getD, List.getElem?_eq_getElem (by omega)]
      rfl
    have cpu : cpuSpec.blockIds[state.cpuOffset + (item.2.1.toNat % factor + index) / factor]? =
        some (cpuSpec.blockIds.getD (state.cpuOffset + (item.2.1.toNat % factor + index) / factor) 0) := by
      rw [List.getD_eq_getElem?_getD, List.getElem?_eq_getElem inCpu]
      rfl
    rw [shifted, ← Nat.mod_add_mod item.2.1.toNat factor index]
    simp only [addPlanEntry, getIndex, device, cpu]
    rfl
  rw [loop_collect each plan, ← List.map_eq_flatMap]

/-- A group that is not negative and for which both lists are long enough is planned. -/
theorem addPlanGroup_ok (positive : 0 < factor) (state : PlanState) (item : PlanItem)
    (nonneg : 0 ≤ item.1 ∧ 0 ≤ item.2.1)
    (gpuRoom : state.gpuOffset + item.1.toNat ≤ gpuSpec.blockIds.length)
    (cpuRoom : state.cpuOffset + (touched factor item.1 item.2.1).card ≤ cpuSpec.blockIds.length) :
    addPlanGroup gpuSpec cpuSpec factor state item = .ok ⟨state.gpuOffset + item.1.toNat,
      state.cpuOffset + (touched factor item.1 item.2.1).card,
      state.plan ++ groupEntries gpuSpec cpuSpec factor state.gpuOffset state.cpuOffset item⟩ := by
  unfold addPlanGroup
  rw [raiseIf, if_neg (by omega)]
  change (if item.1.toNat = 0 then _ else _) = _
  split
  · next empty =>
    have none : groupEntries gpuSpec cpuSpec factor state.gpuOffset state.cpuOffset item = [] := by
      simp [groupEntries, empty]
    rw [empty, card_touched_zero empty, none, List.append_nil]
    rfl
  · next nonempty =>
    rw [card_touched positive _ _ nonempty, raiseIf, if_neg (by omega),
      groupLoop_eq positive state item gpuRoom cpuRoom]
    rfl

/-- Any other group is refused. -/
theorem addPlanGroup_error (positive : 0 < factor) (state : PlanState) (item : PlanItem)
    (gpuInside : state.gpuOffset ≤ gpuSpec.blockIds.length)
    (cpuInside : state.cpuOffset ≤ cpuSpec.blockIds.length)
    (unfit : ¬((0 ≤ item.1 ∧ 0 ≤ item.2.1) ∧ state.gpuOffset + item.1.toNat ≤ gpuSpec.blockIds.length ∧
      state.cpuOffset + (touched factor item.1 item.2.1).card ≤ cpuSpec.blockIds.length)) :
    ∃ message, addPlanGroup gpuSpec cpuSpec factor state item = .error (.valueError message) := by
  unfold addPlanGroup
  by_cases nonneg : 0 ≤ item.1 ∧ 0 ≤ item.2.1
  · rw [raiseIf, if_neg (by omega)]
    change ∃ message, (if item.1.toNat = 0 then _ else _) = _
    have nonempty : item.1.toNat ≠ 0 := by
      intro empty
      exact unfit ⟨nonneg, by omega, by rw [card_touched_zero empty]; omega⟩
    rw [if_neg nonempty, card_touched positive _ _ nonempty, raiseIf, if_pos (by omega)]
    exact ⟨_, rfl⟩
  · rw [raiseIf, if_pos (by omega)]
    exact ⟨_, rfl⟩

/-- The groups are not negative, and both block lists are long enough for all of them. -/
def Fits (gpuSpec : GPULoadStoreSpec) (cpuSpec : CPULoadStoreSpec) (factor : ℕ) (state : PlanState)
    (items : List PlanItem) : Prop :=
  (∀ item ∈ items, 0 ≤ item.1 ∧ 0 ≤ item.2.1) ∧
    state.gpuOffset + blockCount items ≤ gpuSpec.blockIds.length ∧
    state.cpuOffset + chunkCount factor items ≤ cpuSpec.blockIds.length

theorem fits_cons {state : PlanState} {item : PlanItem} {rest : List PlanItem} {plan : List PlanEntry} :
    Fits gpuSpec cpuSpec factor state (item :: rest) ↔ (0 ≤ item.1 ∧ 0 ≤ item.2.1) ∧
      Fits gpuSpec cpuSpec factor ⟨state.gpuOffset + item.1.toNat,
        state.cpuOffset + (touched factor item.1 item.2.1).card, plan⟩ rest := by
  simp only [Fits, blockCount, chunkCount, List.forall_mem_cons, List.map_cons, List.sum_cons, Nat.add_assoc,
    and_assoc]

theorem planLoop_ok (positive : 0 < factor) {state : PlanState} {items : List PlanItem}
    (fits : Fits gpuSpec cpuSpec factor state items) :
    loop (addPlanGroup gpuSpec cpuSpec factor) state items = .ok ⟨state.gpuOffset + blockCount items,
      state.cpuOffset + chunkCount factor items,
      state.plan ++ entriesFrom gpuSpec cpuSpec factor state.gpuOffset state.cpuOffset items⟩ := by
  induction items generalizing state with
  | nil => simp [loop, blockCount, chunkCount, entriesFrom]
  | cons item rest ih =>
    obtain ⟨nonneg, later⟩ := fits_cons.mp fits
    have room := later.2
    simp only at room
    rw [loop, addPlanGroup_ok positive state item nonneg (by omega) (by omega)]
    apply (ih later).trans
    simp only [blockCount, chunkCount, entriesFrom, List.map_cons, List.sum_cons, Nat.add_assoc,
      List.append_assoc]

theorem planLoop_error (positive : 0 < factor) {state : PlanState} {items : List PlanItem}
    (gpuInside : state.gpuOffset ≤ gpuSpec.blockIds.length)
    (cpuInside : state.cpuOffset ≤ cpuSpec.blockIds.length)
    (unfit : ¬Fits gpuSpec cpuSpec factor state items) :
    ∃ message, loop (addPlanGroup gpuSpec cpuSpec factor) state items = .error (.valueError message) := by
  induction items generalizing state with
  | nil => exact absurd ⟨by simp, by simpa [blockCount], by simpa [chunkCount]⟩ unfit
  | cons item rest ih =>
    by_cases first : (0 ≤ item.1 ∧ 0 ≤ item.2.1) ∧ state.gpuOffset + item.1.toNat ≤ gpuSpec.blockIds.length ∧
        state.cpuOffset + (touched factor item.1 item.2.1).card ≤ cpuSpec.blockIds.length
    · obtain ⟨nonneg, gpuRoom, cpuRoom⟩ := first
      rw [loop, addPlanGroup_ok positive state item nonneg gpuRoom cpuRoom]
      exact ih gpuRoom cpuRoom fun later => unfit (fits_cons.mpr ⟨nonneg, later⟩)
    · obtain ⟨message, raised⟩ := addPlanGroup_error positive state item gpuInside cpuInside first
      exact ⟨message, by rw [loop, raised]; rfl⟩

/-- The entries of the groups, by number. -/
theorem entriesFrom_eq (items : List PlanItem) (gpuOffset cpuOffset : ℕ) :
    entriesFrom gpuSpec cpuSpec factor gpuOffset cpuOffset items =
      (List.range items.length).flatMap fun group =>
        groupEntries gpuSpec cpuSpec factor (gpuOffset + blockCount (items.take group))
          (cpuOffset + chunkCount factor (items.take group)) (items.getD group (0, 0, [])) := by
  induction items generalizing gpuOffset cpuOffset with
  | nil => rfl
  | cons item rest ih =>
    rw [entriesFrom, ih, List.length_cons, List.range_succ_eq_map, List.flatMap_cons, List.flatMap_map]
    congr 1
    simp only [List.take_succ_cons, blockCount, chunkCount, List.map_cons, List.sum_cons, List.getD_cons_succ,
      Nat.add_assoc]

end Loop

/-! ### The whole of `copy_plan` -/

/-- A strict `zip` yields all triples of lists of one length, and otherwise raises a `ValueError`. -/
theorem zipStrict_cases {α β γ : Type} (xs : List α) (ys : List β) (zs : List γ) :
    (xs.length = ys.length ∧ ys.length = zs.length ∧ zipStrict xs ys zs = (xs.zip (ys.zip zs), .ok ())) ∨
      ¬(xs.length = ys.length ∧ ys.length = zs.length) ∧
        ∃ message, (zipStrict xs ys zs).2 = .error (.valueError message) := by
  induction xs generalizing ys zs with
  | nil => cases ys <;> cases zs <;> simp [zipStrict]
  | cons x xs ih =>
    cases ys with
    | nil => exact .inr ⟨by simp, _, rfl⟩
    | cons y ys =>
      cases zs with
      | nil => exact .inr ⟨by simp, _, rfl⟩
      | cons z zs =>
        rcases ih ys zs with ⟨first, second, all⟩ | ⟨differ, message, raised⟩
        · exact .inl ⟨congrArg Nat.succ first, congrArg Nat.succ second, by simp [zipStrict, all]⟩
        · exact .inr ⟨by simpa using differ, message, raised⟩

theorem sum_toNat {sizes : List ℤ} (nonneg : ∀ size ∈ sizes, 0 ≤ size) :
    (((sizes.map Int.toNat).sum : ℕ) : ℤ) = sizes.sum := by
  induction sizes with
  | nil => rfl
  | cons size rest ih =>
    rw [List.map_cons, List.sum_cons, List.sum_cons, Nat.cast_add,
      ih fun other member => nonneg other (List.mem_cons_of_mem _ member),
      Int.toNat_of_nonneg (nonneg size (List.mem_cons_self ..))]

section Zipped

variable {sizes indices : List ℤ} {refs : List (List CanonicalKVCacheRef)}

theorem map_fst_zipped (first : sizes.length = indices.length) (second : indices.length = refs.length) :
    (sizes.zip (indices.zip refs)).map Prod.fst = sizes :=
  List.map_fst_zip (by simp [first, second])

/-- The sizes and logical indices of the groups, without their references. -/
theorem map_sizes_zipped (second : indices.length = refs.length) :
    (sizes.zip (indices.zip refs)).map (fun item => (item.1, item.2.1)) = sizes.zip indices := by
  have firsts : (indices.zip refs).map Prod.fst = indices := List.map_fst_zip second.le
  conv_rhs => rw [← firsts, List.zip_map_right]
  rfl

theorem blockCount_zipped (first : sizes.length = indices.length) (second : indices.length = refs.length) :
    blockCount (sizes.zip (indices.zip refs)) = (sizes.map Int.toNat).sum := by
  conv_rhs => rw [← map_fst_zipped first second, List.map_map]
  rfl

theorem chunkCount_zipped (factor : ℕ) (second : indices.length = refs.length) :
    chunkCount factor (sizes.zip (indices.zip refs)) =
      ((sizes.zip indices).map fun group => (touched factor group.1 group.2).card).sum := by
  conv_rhs => rw [← map_sizes_zipped second, List.map_map]
  rfl

theorem nonneg_zipped (first : sizes.length = indices.length) (second : indices.length = refs.length) :
    (∀ item ∈ sizes.zip (indices.zip refs), 0 ≤ item.1 ∧ 0 ≤ item.2.1) ↔
      (∀ size ∈ sizes, 0 ≤ size) ∧ ∀ logical ∈ indices, 0 ≤ logical := by
  have seconds : (sizes.zip (indices.zip refs)).map (fun item => item.2.1) = indices := by
    have outer : (sizes.zip (indices.zip refs)).map Prod.snd = indices.zip refs :=
      List.map_snd_zip (by simp [first, second])
    have inner : (indices.zip refs).map Prod.fst = indices := List.map_fst_zip second.le
    conv_rhs => rw [← inner, ← outer, List.map_map]
    rfl
  have firsts := map_fst_zipped first second
  generalize sizes.zip (indices.zip refs) = items at firsts seconds
  rw [← firsts, ← seconds]
  simp only [List.forall_mem_map]
  exact ⟨fun both => ⟨fun item member => (both item member).1, fun item member => (both item member).2⟩,
    fun both item member => ⟨both.1 item member, both.2 item member⟩⟩

theorem take_zip {α β : Type} (xs : List α) (ys : List β) (count : ℕ) :
    (xs.zip ys).take count = (xs.take count).zip (ys.take count) := List.take_zipWith

/-- The entries of all groups are the plan. -/
theorem entriesFrom_zipped {gpuSpec : GPULoadStoreSpec} {cpuSpec : CPULoadStoreSpec} (factor : ℕ)
    (first : gpuSpec.groupSizes.length = gpuSpec.blockIndices.length)
    (second : gpuSpec.blockIndices.length = refs.length) :
    entriesFrom gpuSpec cpuSpec factor 0 0 (gpuSpec.groupSizes.zip (gpuSpec.blockIndices.zip refs)) =
      transferPlan gpuSpec cpuSpec refs factor := by
  have length : (gpuSpec.groupSizes.zip (gpuSpec.blockIndices.zip refs)).length = refs.length := by
    simp [first, second]
  rw [entriesFrom_eq, transferPlan, length]
  apply List.flatMap_congr
  intro group member
  have inside := List.mem_range.mp member
  rw [take_zip, take_zip, Nat.zero_add, Nat.zero_add,
    blockCount_zipped (by simp [first]) (by simp [second]), chunkCount_zipped _ (by simp [second]), groupPlan,
    gpuOffset, cpuOffset, take_zip]
  congr 1
  simp [List.getD_eq_getElem?_getD, List.getElem_zip, inside, first, second]

end Zipped

section

variable {gpuSpec : GPULoadStoreSpec} {cpuSpec : CPULoadStoreSpec} {refs : List (List CanonicalKVCacheRef)}
  {factor : ℤ}

theorem copyPlan_of_accepts (accepts : Accepts gpuSpec cpuSpec refs factor) :
    copyPlan gpuSpec cpuSpec refs factor = .ok (transferPlan gpuSpec cpuSpec refs factor.toNat) := by
  obtain ⟨factor_pos, first, second, sizes, indices, gpu, cpu⟩ := accepts
  have positive : 0 < factor.toNat := by omega
  have blocks : blockCount (gpuSpec.groupSizes.zip (gpuSpec.blockIndices.zip refs)) = gpuSpec.blockIds.length := by
    rw [blockCount_zipped first second, ← Nat.cast_inj (R := ℤ), sum_toNat sizes, gpu]
  have chunks : chunkCount factor.toNat (gpuSpec.groupSizes.zip (gpuSpec.blockIndices.zip refs)) =
      cpuSpec.blockIds.length := by
    rw [chunkCount_zipped _ second, cpu]
  have fits : Fits gpuSpec cpuSpec factor.toNat ⟨0, 0, []⟩
      (gpuSpec.groupSizes.zip (gpuSpec.blockIndices.zip refs)) :=
    ⟨(nonneg_zipped first second).mpr ⟨sizes, indices⟩, by simp [blocks], by simp [chunks]⟩
  obtain ⟨_, _, zipped⟩ | ⟨differ, _⟩ := zipStrict_cases gpuSpec.groupSizes gpuSpec.blockIndices refs
  · unfold copyPlan
    rw [raiseIf, if_neg (by omega), zipped]
    change (loop _ _ _ >>= _) = _
    rw [planLoop_ok positive fits]
    change (raiseIf _ _ >>= _) = _
    rw [raiseIf, if_neg (by simp [blocks, chunks]), ← entriesFrom_zipped _ first second]
    rfl
  · exact absurd ⟨first, second⟩ differ

theorem copyPlan_error (refused : ¬Accepts gpuSpec cpuSpec refs factor) :
    ∃ message, copyPlan gpuSpec cpuSpec refs factor = .error (.valueError message) := by
  unfold copyPlan
  by_cases invalid : factor < 1 ∨ gpuSpec.groupSizes.length ≠ refs.length
  · rw [raiseIf, if_pos invalid]
    exact ⟨_, rfl⟩
  · rw [raiseIf, if_neg invalid]
    change ∃ message, (loop _ _ _ >>= _) = _
    have positive : 0 < factor.toNat := by omega
    have inside : ∀ items, (∃ message, loop (addPlanGroup gpuSpec cpuSpec factor.toNat) ⟨0, 0, []⟩ items =
        .error (.valueError message)) ∨ Fits gpuSpec cpuSpec factor.toNat ⟨0, 0, []⟩ items := by
      intro items
      by_cases fits : Fits gpuSpec cpuSpec factor.toNat ⟨0, 0, []⟩ items
      · exact .inr fits
      · exact .inl (planLoop_error positive (Nat.zero_le _) (Nat.zero_le _) fits)
    rcases inside (zipStrict gpuSpec.groupSizes gpuSpec.blockIndices refs).1 with ⟨message, raised⟩ | fits
    · exact ⟨message, by rw [raised]; rfl⟩
    · rw [planLoop_ok positive fits]
      rcases zipStrict_cases gpuSpec.groupSizes gpuSpec.blockIndices refs with
        ⟨first, second, zipped⟩ | ⟨_, message, raised⟩
      · rw [zipped] at fits ⊢
        obtain ⟨sizes, indices⟩ := (nonneg_zipped first second).mp fits.1
        change ∃ message, (raiseIf _ _ >>= _) = _
        rw [raiseIf, if_pos]
        · exact ⟨_, rfl⟩
        · simp only [Nat.zero_add]
          -- otherwise both counts would be right
          by_contra counts
          have gpu : blockCount (gpuSpec.groupSizes.zip (gpuSpec.blockIndices.zip refs)) =
              gpuSpec.blockIds.length := by tauto
          have cpu : chunkCount factor.toNat (gpuSpec.groupSizes.zip (gpuSpec.blockIndices.zip refs)) =
              cpuSpec.blockIds.length := by tauto
          rw [blockCount_zipped first second, ← Nat.cast_inj (R := ℤ), sum_toNat sizes] at gpu
          rw [chunkCount_zipped _ second] at cpu
          exact refused ⟨by omega, first, second, sizes, indices, gpu, cpu⟩
      · change ∃ message, ((zipStrict _ _ _).2 >>= _) = _
        exact ⟨message, by rw [raised]; rfl⟩

/-- The chunks of a group are among the CPU blocks. -/
theorem cpuOffset_add_le (accepts : Accepts gpuSpec cpuSpec refs factor) {group : ℕ}
    (inside : group < refs.length) :
    cpuOffset gpuSpec factor.toNat group + (touched factor.toNat (gpuSpec.groupSizes.getD group 0)
      (gpuSpec.blockIndices.getD group 0)).card ≤ cpuSpec.blockIds.length := by
  have indices : group < gpuSpec.blockIndices.length := accepts.groups ▸ inside
  have sizes : group < gpuSpec.groupSizes.length := accepts.indices ▸ indices
  set counts := (gpuSpec.groupSizes.zip gpuSpec.blockIndices).map fun group =>
    (touched factor.toNat group.1 group.2).card with defined
  have length : group < counts.length := by simp [defined, sizes, indices]
  have here : counts[group] = (touched factor.toNat (gpuSpec.groupSizes.getD group 0)
      (gpuSpec.blockIndices.getD group 0)).card := by
    simp [defined, List.getD_eq_getElem?_getD, sizes, indices]
  have before : cpuOffset gpuSpec factor.toNat group = (counts.take group).sum := by
    rw [cpuOffset, List.map_take]
  rw [← here, before, ← List.sum_take_succ counts group length, ← accepts.cpu_blocks, ← defined]
  have split := List.sum_take_add_sum_drop counts (group + 1)
  omega

/-- Distinct positions of a list without repetitions hold distinct blocks. -/
theorem getD_inj {ids : List ℤ} (distinct : ids.Nodup) {i j : ℕ} (left : i < ids.length) (right : j < ids.length)
    (same : ids.getD i 0 = ids.getD j 0) : i = j := by
  rw [List.getD_eq_getElem _ _ left, List.getD_eq_getElem _ _ right] at same
  exact distinct.getElem_inj_iff.mp same

/-- Entries of a group that share tensor, CPU block and sub-block are the same entry. -/
theorem nodup_groupPlan (accepts : Accepts gpuSpec cpuSpec refs factor) (distinct : cpuSpec.blockIds.Nodup)
    {group : ℕ} {groupRefs : List CanonicalKVCacheRef} (listed : refs[group]? = some groupRefs)
    (tensors : (groupRefs.map CanonicalKVCacheRef.tensorIdx).Nodup) :
    ((groupPlan gpuSpec cpuSpec refs factor.toNat group).map fun entry =>
      (entry.tensorIdx, entry.cpuBlock, entry.subBlock)).Nodup := by
  have positive : 0 < factor.toNat := by have := accepts.factor_pos; omega
  have room := cpuOffset_add_le accepts (List.getElem?_eq_some_iff.mp listed).1
  have ofGroup : refs.getD group [] = groupRefs := by
    rw [List.getD_eq_getElem?_getD, listed]
    rfl
  rw [groupPlan, groupEntries, ofGroup]
  generalize gpuSpec.groupSizes.getD group 0 = size at room ⊢
  generalize gpuSpec.blockIndices.getD group 0 = logical at room ⊢
  simp only [List.map_flatMap, List.map_map, List.nodup_flatMap]
  constructor
  · intro ref _
    apply List.nodup_range.map_on
    intro i iInside j jInside same
    simp only [Function.comp_apply, Prod.mk.injEq, true_and] at same
    have position : ∀ index ∈ List.range size.toNat, cpuOffset gpuSpec factor.toNat group +
        ((logical.toNat + index) / factor.toNat - logical.toNat / factor.toNat) < cpuSpec.blockIds.length := by
      intro index member
      have chunk := chunk_lt_card positive logical (List.mem_range.mp member)
      rw [add_div_chunk positive, Nat.add_sub_cancel_left]
      exact Nat.lt_of_lt_of_le (Nat.add_lt_add_left chunk _) room
    have chunks := Nat.add_left_cancel (getD_inj distinct (position i iInside) (position j jInside) same.1)
    rw [add_div_chunk positive, add_div_chunk positive logical.toNat j, Nat.add_sub_cancel_left,
      Nat.add_sub_cancel_left] at chunks
    have quotients : (logical.toNat + i) / factor.toNat = (logical.toNat + j) / factor.toNat := by
      rw [add_div_chunk positive, add_div_chunk positive logical.toNat j, chunks]
    have whole := Nat.div_add_mod (logical.toNat + i) factor.toNat
    rw [quotients, same.2, Nat.div_add_mod] at whole
    omega
  · apply (List.pairwise_map.mp tensors).imp
    intro ref other differ
    rw [Function.onFun, List.disjoint_left]
    intro entry left right
    obtain ⟨i, _, rfl⟩ := List.mem_map.mp left
    obtain ⟨j, _, same⟩ := List.mem_map.mp right
    exact differ (congrArg Prod.fst same).symm

end

/-- `copy_plan` returns a plan exactly for the well-formed transfers, and then this plan; it refuses all
others with a `ValueError`. With distinct CPU blocks and tensors no two entries of a group share their
tensor, CPU block and sub-block. -/
theorem copyPlan_accepts_iff (gpuSpec : GPULoadStoreSpec) (cpuSpec : CPULoadStoreSpec)
    (refs : List (List CanonicalKVCacheRef)) (factor : ℤ) :
    (∀ plan, copyPlan gpuSpec cpuSpec refs factor = .ok plan ↔
      Accepts gpuSpec cpuSpec refs factor ∧ plan = transferPlan gpuSpec cpuSpec refs factor.toNat) ∧
    (¬Accepts gpuSpec cpuSpec refs factor →
      ∃ message, copyPlan gpuSpec cpuSpec refs factor = .error (.valueError message)) ∧
    (Accepts gpuSpec cpuSpec refs factor → cpuSpec.blockIds.Nodup → ∀ group groupRefs,
      refs[group]? = some groupRefs → (groupRefs.map CanonicalKVCacheRef.tensorIdx).Nodup →
        ((groupPlan gpuSpec cpuSpec refs factor.toNat group).map fun entry =>
          (entry.tensorIdx, entry.cpuBlock, entry.subBlock)).Nodup) := by
  refine ⟨fun plan => ⟨fun planned => ?_, ?_⟩, copyPlan_error, ?_⟩
  · by_cases accepts : Accepts gpuSpec cpuSpec refs factor
    · exact ⟨accepts, Except.ok.inj (planned.symm.trans (copyPlan_of_accepts accepts))⟩
    · obtain ⟨message, raised⟩ := copyPlan_error accepts
      rw [raised] at planned
      cases planned
  · rintro ⟨accepts, rfl⟩
    exact copyPlan_of_accepts accepts
  · intro accepts distinct group groupRefs listed tensors
    exact nodup_groupPlan accepts distinct listed tensors

end KVTiering.Soundness.PlanAcceptance
