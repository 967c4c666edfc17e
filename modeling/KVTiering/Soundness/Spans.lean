import KVTiering.Soundness.CopyPlan

/-! # The bytes that a transfer carries

The rows of a layer lie one after another in a CPU block. Resolving an accepted plan gives, for each
byte of each layer of each logical block in the transfer, one device address and one CPU address; the
CPU address depends on the logical block alone, not on where the transfer begins.
-/

namespace KVTiering.Soundness

open Model

/-- The address of a byte of a block, counted through the rows of a layer. -/
def packedAddress : List ByteRows → ℕ → ℕ → ℕ
  | [], _, _ => 0
  | row :: rest, block, offset =>
    if offset < row.shape1 then row.address block offset else packedAddress rest block (offset - row.shape1)

theorem rowBytes_cons (row : ByteRows) (rest : List ByteRows) :
    rowBytes (row :: rest) = row.shape1 + rowBytes rest := by simp [rowBytes]

/-- Every byte of every row is counted. -/
theorem exists_packedAddress {rows : List ByteRows} {row : ByteRows} (member : row ∈ rows) {i : ℕ}
    (inside : i < row.shape1) :
    ∃ offset < rowBytes rows, ∀ block, packedAddress rows block offset = row.address block i := by
  induction rows with
  | nil => simp at member
  | cons first rest ih =>
    rcases List.mem_cons.mp member with rfl | later
    · exact ⟨i, by rw [rowBytes_cons]; omega, fun block => if_pos inside⟩
    · obtain ⟨offset, bound, same⟩ := ih later
      refine ⟨first.shape1 + offset, by rw [rowBytes_cons]; omega, fun block => ?_⟩
      rw [packedAddress, if_neg (by omega), Nat.add_sub_cancel_left, same]

/-- Positions within the rows of a packed view have different addresses. -/
theorem Packed.address_inj {view : ByteRows} (packed : Packed view) {block other i j : ℕ}
    (left : i < view.shape1) (right : j < view.shape1)
    (same : view.address block i = view.address other j) : block = other ∧ i = j := by
  obtain ⟨step, wide⟩ := packed
  have flat : i + block * view.stride0 = j + other * view.stride0 := by
    simp only [ByteRows.address, step] at same
    omega
  have positive : 0 < view.stride0 := by omega
  have blocks : block = other := by
    have divided := congrArg (· / view.stride0) flat
    simpa only [Nat.add_mul_div_right _ _ positive, Nat.div_eq_of_lt (lt_of_lt_of_le left wide),
      Nat.div_eq_of_lt (lt_of_lt_of_le right wide), Nat.zero_add] using divided
  subst blocks
  exact ⟨rfl, Nat.add_right_cancel flat⟩

/-- The addresses of a span, in order. -/
def addresses (span : ByteSpan) : List ℕ := (List.range span.length).map span.address

/-- The device and CPU addresses that a pair of spans puts side by side. -/
def cells (span : ByteSpan × ByteSpan) : List (ℕ × ℕ) :=
  (List.range span.1.length).map fun i => (span.1.address i, span.2.address i)

/-- Spans of one length, the device side without gaps. -/
def Matched (span : ByteSpan × ByteSpan) : Prop := span.1.length = span.2.length ∧ span.1.step = 1

/-- The spans of the rows of a layer, from an offset within a CPU block that leaves room for them. -/
theorem rowSpans_spec {deviceBlock cpuBlock : ℤ} {cpu : ByteRows} {rows : List ByteRows} {offset stop : ℕ}
    {spans after : List (ByteSpan × ByteSpan)} (packed : ∀ row ∈ rows, Packed row)
    (room : offset + rowBytes rows ≤ cpu.shape1)
    (done : loop (addRowSpan deviceBlock cpu cpuBlock) (offset, spans) rows = .ok (stop, after)) :
    ((∀ span ∈ spans, Matched span) → ∀ span ∈ after, Matched span) ∧
    ∀ cell, cell ∈ after.flatMap cells ↔ cell ∈ spans.flatMap cells ∨ ∃ i < rowBytes rows,
      cell = (packedAddress rows deviceBlock.toNat i, cpu.address cpuBlock.toNat (offset + i)) := by
  induction rows generalizing offset spans with
  | nil =>
    cases done
    simp [rowBytes]
  | cons row rest ih =>
    rw [rowBytes_cons] at room
    obtain ⟨⟨middle, between⟩, first, remaining⟩ := bind_eq_ok_iff.mp done
    simp only [addRowSpan, bind_eq_ok_iff, raiseIf_eq_ok_iff, exists_const, pure, Except.pure, Except.ok.injEq,
      Prod.mk.injEq] at first
    obtain ⟨-, rfl, rfl⟩ := first
    obtain ⟨matched, holds⟩ := ih (fun other member => packed other (by simp [member])) (by omega) remaining
    have start : min offset cpu.shape1 = offset := by omega
    have finish : min (offset + row.shape1) cpu.shape1 = offset + row.shape1 := by omega
    have sliced : cpu.slice cpuBlock.toNat offset (offset + row.shape1) =
        ⟨cpu.address cpuBlock.toNat offset, row.shape1, cpu.stride1⟩ := by
      rw [ByteRows.slice, start, finish, Nat.add_sub_cancel_left]
    refine ⟨fun before => matched ?_, fun cell => ?_⟩
    · intro span member
      rcases List.mem_append.mp member with old | new
      · exact before span old
      · rw [List.mem_singleton.mp new, sliced]
        exact ⟨rfl, (packed row (by simp)).1⟩
    · rw [holds cell, List.flatMap_append, List.mem_append, or_assoc, rowBytes_cons]
      apply or_congr_right
      have head : cell ∈ [(row.row deviceBlock.toNat,
          cpu.slice cpuBlock.toNat offset (offset + row.shape1))].flatMap cells ↔ ∃ i < row.shape1,
            cell = (row.address deviceBlock.toNat i, cpu.address cpuBlock.toNat (offset + i)) := by
        simp only [sliced, cells, ByteRows.row, ByteSpan.address, ByteRows.address, List.flatMap_cons,
          List.flatMap_nil, List.append_nil, List.mem_map, List.mem_range, Nat.add_mul, Nat.add_assoc, eq_comm]
      rw [head]
      constructor
      · rintro (⟨i, inside, rfl⟩ | ⟨i, inside, rfl⟩)
        · exact ⟨i, by omega, by rw [packedAddress, if_pos inside]⟩
        · refine ⟨row.shape1 + i, by omega, ?_⟩
          rw [packedAddress, if_neg (by omega), Nat.add_sub_cancel_left, Nat.add_assoc]
      · rintro ⟨i, inside, rfl⟩
        rw [packedAddress]
        by_cases early : i < row.shape1
        · exact .inl ⟨i, early, by rw [if_pos early]⟩
        · refine .inr ⟨i - row.shape1, by omega, ?_⟩
          rw [if_neg early, Nat.add_assoc, Nat.add_sub_cancel' (by omega)]

theorem WorkerFits.view {worker : AscendLayoutWorker} (fits : WorkerFits worker) {allocation page : ℕ}
    {view : ByteRows} (hasPage : worker.pages[allocation]? = some page)
    (hasView : worker.cpuTensors[allocation]? = some view) :
    (view.shape1 : ℤ) = page * worker.factor ∧ Packed view := by
  obtain ⟨inPages, rfl⟩ := List.getElem?_eq_some_iff.mp hasPage
  obtain ⟨inViews, rfl⟩ := List.getElem?_eq_some_iff.mp hasView
  exact List.forall₂_iff_get.mp fits.views |>.2 allocation inPages inViews

/-- A layer's bytes fit the place of their block within a CPU block. -/
theorem WorkerFits.room {worker : AscendLayoutWorker} (fits : WorkerFits worker) {layer : ℕ × List ByteRows}
    (member : layer ∈ worker.layers) {page : ℕ} (hasPage : worker.pages[layer.1]? = some page) {view : ByteRows}
    (hasView : worker.cpuTensors[layer.1]? = some view) (positive : 0 < worker.factor.toNat) (logical : ℕ) :
    rowBytes layer.2 ≤ page ∧ logical % worker.factor.toNat * page + rowBytes layer.2 ≤ view.shape1 := by
  obtain ⟨same, found, -, small, -⟩ := fits.layers layer member
  obtain rfl : same = page := Option.some.inj (found.symm.trans hasPage)
  have width : view.shape1 = worker.factor.toNat * same := by
    have integer := (fits.view hasPage hasView).1
    rw [← Int.toNat_of_nonneg (show 0 ≤ worker.factor by omega)] at integer
    rw [Nat.mul_comm]
    exact_mod_cast integer
  refine ⟨small, ?_⟩
  calc logical % worker.factor.toNat * same + rowBytes layer.2
      ≤ logical % worker.factor.toNat * same + same := Nat.add_le_add_left small _
    _ = (logical % worker.factor.toNat + 1) * same := by rw [Nat.succ_mul]
    _ ≤ worker.factor.toNat * same := Nat.mul_le_mul_right _ (Nat.mod_lt _ positive)
    _ = view.shape1 := width.symm

/-- Where a plan entry is resolved to: its layer, the view of its allocation, and the page size. -/
structure ResolvesTo (worker : AscendLayoutWorker) (entry : PlanEntry) (layer : ℕ × List ByteRows)
    (view : ByteRows) (page : ℕ) : Prop where
  hasLayer : worker.layers[entry.tensorIdx]? = some layer
  hasView : worker.cpuTensors[layer.1]? = some view
  hasPage : worker.pages[layer.1]? = some page
  valid : 0 ≤ entry.cpuBlock ∧ entry.cpuBlock < view.shape0

theorem ResolvesTo.unique {worker : AscendLayoutWorker} {entry : PlanEntry} {layer other : ℕ × List ByteRows}
    {view view' : ByteRows} {page page' : ℕ} (left : ResolvesTo worker entry layer view page)
    (right : ResolvesTo worker entry other view' page') : layer = other ∧ view = view' ∧ page = page' := by
  obtain rfl : layer = other := Option.some.inj (left.hasLayer.symm.trans right.hasLayer)
  exact ⟨rfl, Option.some.inj (left.hasView.symm.trans right.hasView),
    Option.some.inj (left.hasPage.symm.trans right.hasPage)⟩

/-- The addresses that resolving `entry` puts side by side. -/
def EntryCell (worker : AscendLayoutWorker) (entry : PlanEntry) (cell : ℕ × ℕ) : Prop :=
  ∃ layer view page, ResolvesTo worker entry layer view page ∧ ∃ i < rowBytes layer.2,
    cell = (packedAddress layer.2 entry.deviceBlock.toNat i,
      view.address entry.cpuBlock.toNat (entry.subBlock * page + i))

theorem addEntrySpans_spec {worker : AscendLayoutWorker} (fits : WorkerFits worker)
    (positive : 0 < worker.factor.toNat) {entry : PlanEntry} {logical : ℕ}
    (aligned : entry.subBlock = logical % worker.factor.toNat) {spans next : List (ByteSpan × ByteSpan)}
    (added : worker.addEntrySpans spans entry = .ok next) :
    (∃ layer view page, ResolvesTo worker entry layer view page) ∧
    ((∀ span ∈ spans, Matched span) → ∀ span ∈ next, Matched span) ∧
    ∀ cell, cell ∈ next.flatMap cells ↔ cell ∈ spans.flatMap cells ∨ EntryCell worker entry cell := by
  simp only [AscendLayoutWorker.addEntrySpans, bind_eq_ok_iff, raiseIf_eq_ok_iff, exists_const,
    getIndex_eq_ok_iff, pure, Except.pure, Except.ok.injEq] at added
  obtain ⟨layer, hasLayer, view, hasView, valid, -, page, hasPage, done, listed, rfl⟩ := added
  have member := List.mem_of_getElem? hasLayer
  have resolved : ResolvesTo worker entry layer view page := ⟨hasLayer, hasView, hasPage, not_not.mp valid⟩
  obtain ⟨-, -, -, -, packed⟩ := fits.layers layer member
  have room : entry.subBlock * page + rowBytes layer.2 ≤ view.shape1 := by
    rw [aligned]
    exact (fits.room member hasPage hasView positive logical).2
  obtain ⟨matched, holds⟩ := rowSpans_spec packed room listed
  refine ⟨⟨_, _, _, resolved⟩, matched, fun cell => (holds cell).trans (or_congr_right ?_)⟩
  constructor
  · exact fun ⟨i, inside, same⟩ => ⟨_, _, _, resolved, i, inside, same⟩
  · rintro ⟨other, view', page', again, i, inside, same⟩
    obtain ⟨rfl, rfl, rfl⟩ := resolved.unique again
    exact ⟨i, inside, same⟩

/-- A byte of a logical block that a transfer carries, with the blocks given for it. -/
structure Carried (worker : AscendLayoutWorker) (gpuSpec : GPULoadStoreSpec) (cpuSpec : CPULoadStoreSpec) where
  group : ℕ
  logical : ℕ
  ref : CanonicalKVCacheRef
  offset : ℕ
  deviceBlock : ℤ
  cpuBlock : ℤ
  layer : ℕ × List ByteRows
  view : ByteRows
  page : ℕ
  inGroup : ∃ refs, worker.refs[group]? = some refs ∧ ref ∈ refs
  device : Names (logicalBlocks gpuSpec) gpuSpec.blockIds (group, logical) deviceBlock
  cpu : Names (touchedChunks worker.factor.toNat gpuSpec) cpuSpec.blockIds (group, logical / worker.factor.toNat)
    cpuBlock
  hasLayer : worker.layers[ref.tensorIdx]? = some layer
  hasView : worker.cpuTensors[layer.1]? = some view
  hasPage : worker.pages[layer.1]? = some page
  inside : offset < rowBytes layer.2
  valid : 0 ≤ cpuBlock ∧ cpuBlock < view.shape0

namespace Carried

variable {worker : AscendLayoutWorker} {gpuSpec : GPULoadStoreSpec} {cpuSpec : CPULoadStoreSpec}

def deviceAddress (byte : Carried worker gpuSpec cpuSpec) : ℕ :=
  packedAddress byte.layer.2 byte.deviceBlock.toNat byte.offset

/-- The place of the byte within a CPU block. -/
def place (byte : Carried worker gpuSpec cpuSpec) : ℕ :=
  byte.logical % worker.factor.toNat * byte.page + byte.offset

def cpuAddress (byte : Carried worker gpuSpec cpuSpec) : ℕ :=
  byte.view.address byte.cpuBlock.toNat byte.place

end Carried

/-- What a transfer carries of one entry of its plan. -/
theorem Carried.of_entry {worker : AscendLayoutWorker} {gpuSpec : GPULoadStoreSpec} {cpuSpec : CPULoadStoreSpec}
    {group logical : ℕ} {refs : List CanonicalKVCacheRef} {ref : CanonicalKVCacheRef} {deviceBlock cpuBlock : ℤ}
    (listed : worker.refs[group]? = some refs) (member : ref ∈ refs)
    (device : Names (logicalBlocks gpuSpec) gpuSpec.blockIds (group, logical) deviceBlock)
    (cpu : Names (touchedChunks worker.factor.toNat gpuSpec) cpuSpec.blockIds
      (group, logical / worker.factor.toNat) cpuBlock)
    {layer : ℕ × List ByteRows} {view : ByteRows} {page : ℕ}
    (resolved : ResolvesTo worker (planEntry worker.factor.toNat ref logical deviceBlock cpuBlock) layer view page)
    {offset : ℕ} (inside : offset < rowBytes layer.2) :
    ∃ byte : Carried worker gpuSpec cpuSpec, byte.group = group ∧ byte.logical = logical ∧ byte.ref = ref ∧
      byte.offset = offset ∧
      (byte.deviceAddress, byte.cpuAddress) = (packedAddress layer.2 deviceBlock.toNat offset,
        view.address cpuBlock.toNat (logical % worker.factor.toNat * page + offset)) :=
  ⟨⟨group, logical, ref, offset, deviceBlock, cpuBlock, layer, view, page, ⟨refs, listed, member⟩, device, cpu,
    resolved.hasLayer, resolved.hasView, resolved.hasPage, inside, resolved.valid⟩, rfl, rfl, rfl, rfl, rfl⟩

section Resolve

variable {worker : AscendLayoutWorker} {gpuSpec : GPULoadStoreSpec} {cpuSpec : CPULoadStoreSpec}
  {spans : List (ByteSpan × ByteSpan)}

/-- The spans of a plan put side by side the addresses of its entries, all of which are resolved. -/
theorem spans_spec (fits : WorkerFits worker) (positive : 0 < worker.factor.toNat) {plan : List PlanEntry}
    (plans : Plans gpuSpec cpuSpec worker.factor.toNat (gpuSpec.groupSizes.zip gpuSpec.blockIndices) worker.refs
      plan) (spanned : worker.spans plan = .ok spans) :
    (∀ span ∈ spans, Matched span) ∧
    (∀ entry ∈ plan, ∃ layer view page, ResolvesTo worker entry layer view page) ∧
    ∀ cell, cell ∈ spans.flatMap cells ↔ ∃ entry ∈ plan, EntryCell worker entry cell := by
  refine loop_invariant spanned (fun visited spans => (∀ span ∈ spans, Matched span) ∧
    (∀ entry ∈ visited, ∃ layer view page, ResolvesTo worker entry layer view page) ∧
    ∀ cell, cell ∈ spans.flatMap cells ↔ ∃ entry ∈ visited, EntryCell worker entry cell) (by simp) ?_
  rintro visited before entry after member ⟨matched, resolves, holds⟩ added
  obtain ⟨group, refs, ref, logical, deviceBlock, cpuBlock, -, -, -, -, rfl⟩ := (plans entry).mp member
  obtain ⟨resolved, kept, grown⟩ := addEntrySpans_spec fits positive rfl added
  refine ⟨kept matched, fun other found => ?_, fun cell => ?_⟩
  · rcases List.mem_append.mp found with old | new
    · exact resolves other old
    · exact List.mem_singleton.mp new ▸ resolved
  · rw [grown cell, holds cell]
    simp only [List.mem_append, List.mem_singleton, or_and_right, exists_or, exists_eq_left]

/-- **What a transfer copies.** The spans of an accepted transfer put side by side the two addresses of
each byte that it carries, and nothing else. -/
theorem resolve_spec (fits : WorkerFits worker) (resolved : worker.resolve gpuSpec cpuSpec = .ok spans) :
    (∀ span ∈ spans, Matched span) ∧
    ∀ cell, cell ∈ spans.flatMap cells ↔
      ∃ byte : Carried worker gpuSpec cpuSpec, cell = (byte.deviceAddress, byte.cpuAddress) := by
  obtain ⟨plan, planned, spanned⟩ := bind_eq_ok_iff.mp resolved
  obtain ⟨positive, -, -, plans⟩ := copyPlan_spec planned
  obtain ⟨matched, -, holds⟩ := spans_spec fits positive plans spanned
  refine ⟨matched, fun cell => (holds cell).trans ⟨?_, ?_⟩⟩
  · rintro ⟨entry, member, layer, view, page, resolves, offset, inside, rfl⟩
    obtain ⟨group, refs, ref, logical, deviceBlock, cpuBlock, listed, inRefs, device, cpu, rfl⟩ :=
      (plans entry).mp member
    obtain ⟨byte, -, -, -, -, same⟩ := Carried.of_entry listed inRefs device cpu resolves inside
    exact ⟨byte, same.symm⟩
  · rintro ⟨byte, rfl⟩
    obtain ⟨refs, listed, inRefs⟩ := byte.inGroup
    refine ⟨_, (plans _).mpr ⟨_, _, _, _, _, _, listed, inRefs, byte.device, byte.cpu, rfl⟩, ?_⟩
    exact ⟨_, _, _, ⟨byte.hasLayer, byte.hasView, byte.hasPage, byte.valid⟩, _, byte.inside, rfl⟩

/-- Every byte of a layer is carried for each logical block that the transfer names. -/
theorem exists_carried (fits : WorkerFits worker) (resolved : worker.resolve gpuSpec cpuSpec = .ok spans)
    {group logical : ℕ} {deviceBlock : ℤ}
    (device : Names (logicalBlocks gpuSpec) gpuSpec.blockIds (group, logical) deviceBlock)
    {refs : List CanonicalKVCacheRef} (listed : worker.refs[group]? = some refs) {ref : CanonicalKVCacheRef}
    (member : ref ∈ refs) {layer : ℕ × List ByteRows} (hasLayer : worker.layers[ref.tensorIdx]? = some layer)
    {offset : ℕ} (inside : offset < rowBytes layer.2) :
    ∃ byte : Carried worker gpuSpec cpuSpec, byte.group = group ∧ byte.logical = logical ∧ byte.ref = ref ∧
      byte.offset = offset ∧ byte.deviceAddress = packedAddress layer.2 deviceBlock.toNat offset := by
  obtain ⟨plan, planned, spanned⟩ := bind_eq_ok_iff.mp resolved
  obtain ⟨positive, -, enough, plans⟩ := copyPlan_spec planned
  obtain ⟨-, resolves, -⟩ := spans_spec fits positive plans spanned
  obtain ⟨cpuBlock, cpu⟩ := exists_names enough (chunk_mem_of_block positive device.mem)
  have entry := (plans _).mpr ⟨_, _, _, _, _, _, listed, member, device, cpu, rfl⟩
  obtain ⟨found, view, page, there⟩ := resolves _ entry
  obtain rfl : found = layer := Option.some.inj (there.hasLayer.symm.trans hasLayer)
  obtain ⟨byte, atGroup, atLogical, atRef, atOffset, same⟩ :=
    Carried.of_entry listed member device cpu there inside
  exact ⟨byte, atGroup, atLogical, atRef, atOffset, congrArg Prod.fst same⟩

end Resolve

end KVTiering.Soundness
