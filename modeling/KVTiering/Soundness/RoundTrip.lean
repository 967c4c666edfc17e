import KVTiering.Soundness.Spans
import Mathlib.Data.List.Pairwise
import Mathlib.Data.List.ProdSigma

/-! # Storing to the host and loading back

A CPU address determines the byte whose place it is, so a load finds at each place what the store put
there, however the two transfers are cut. The copies of a transfer write nothing outside its spans.
-/

namespace KVTiering.Soundness.AscendLayoutWorker

open Model

/-- Views without a common address. -/
def ViewsApart (view other : ByteRows) : Prop :=
  ∀ block < view.shape0, ∀ i < view.shape1, ∀ block' < other.shape0, ∀ j < other.shape1,
    view.address block i ≠ other.address block' j

/-- The CPU blocks of a transfer are the ones that `assign` keeps for its chunks. -/
def FollowsAssignment (assign : ℕ × ℕ → ℤ) (worker : AscendLayoutWorker) (gpuSpec : GPULoadStoreSpec)
    (cpuSpec : CPULoadStoreSpec) : Prop :=
  cpuSpec.blockIds = (touchedChunks worker.factor.toNat gpuSpec).map assign

section Places

variable {worker : AscendLayoutWorker} {gpuSpec gpuSpec' : GPULoadStoreSpec} {cpuSpec cpuSpec' : CPULoadStoreSpec}

theorem place_lt (fits : WorkerFits worker) (positive : 0 < worker.factor.toNat)
    (byte : Carried worker gpuSpec cpuSpec) : byte.offset < byte.page ∧ byte.place < byte.view.shape1 := by
  have inside := byte.inside
  obtain ⟨small, room⟩ := fits.room (List.mem_of_getElem? byte.hasLayer) byte.hasPage byte.hasView positive
    byte.logical
  rw [Carried.place]
  omega

/-- Bytes of different allocations have different places. -/
theorem same_allocation (fits : WorkerFits worker) (positive : 0 < worker.factor.toNat)
    (apart : worker.cpuTensors.Pairwise ViewsApart) (byte : Carried worker gpuSpec cpuSpec)
    (other : Carried worker gpuSpec' cpuSpec') (same : byte.cpuAddress = other.cpuAddress) :
    byte.layer.1 = other.layer.1 := by
  obtain ⟨inViews, here⟩ := List.getElem?_eq_some_iff.mp byte.hasView
  obtain ⟨inViews', there⟩ := List.getElem?_eq_some_iff.mp other.hasView
  have valid := byte.valid
  have valid' := other.valid
  have place := (place_lt fits positive byte).2
  have place' := (place_lt fits positive other).2
  rw [List.pairwise_iff_getElem] at apart
  rcases lt_trichotomy byte.layer.1 other.layer.1 with less | equal | greater
  · have separate := apart _ _ inViews inViews' less
    rw [here, there] at separate
    exact absurd same (separate _ (by omega) _ place _ (by omega) _ place')
  · exact equal
  · have separate := apart _ _ inViews' inViews greater
    rw [here, there] at separate
    exact absurd same.symm (separate _ (by omega) _ place' _ (by omega) _ place)

/-- A remainder and a quotient put together are taken apart again. -/
theorem packed_inj {page high low high' low' : ℕ} (left : low < page) (right : low' < page)
    (same : high * page + low = high' * page + low') : high = high' ∧ low = low' := by
  have view : Packed ⟨⟨"", 0⟩, 0, 0, page, page, 1⟩ := ⟨rfl, le_refl page⟩
  exact view.address_inj left right (by simpa [ByteRows.address] using same)

/-- **One place for each byte.** Under one assignment of CPU blocks to chunks, bytes that two transfers
put at the same CPU address are the same byte of the same logical block. -/
theorem byte_of_place (fits : WorkerFits worker) (positive : 0 < worker.factor.toNat)
    (apart : worker.cpuTensors.Pairwise ViewsApart) {assign : ℕ × ℕ → ℤ}
    (follows : FollowsAssignment assign worker gpuSpec cpuSpec)
    (follows' : FollowsAssignment assign worker gpuSpec' cpuSpec')
    (distinct : Set.InjOn assign {chunk | chunk ∈ touchedChunks worker.factor.toNat gpuSpec ∨
      chunk ∈ touchedChunks worker.factor.toNat gpuSpec'})
    (byte : Carried worker gpuSpec cpuSpec) (other : Carried worker gpuSpec' cpuSpec')
    (same : byte.cpuAddress = other.cpuAddress) :
    byte.group = other.group ∧ byte.logical = other.logical ∧ byte.ref = other.ref ∧
      byte.offset = other.offset := by
  have allocation := same_allocation fits positive apart byte other same
  have sameView : byte.view = other.view :=
    Option.some.inj (byte.hasView.symm.trans (allocation ▸ other.hasView))
  have samePage : byte.page = other.page :=
    Option.some.inj (byte.hasPage.symm.trans (allocation ▸ other.hasPage))
  obtain ⟨small, place⟩ := place_lt fits positive byte
  obtain ⟨small', place'⟩ := place_lt fits positive other
  rw [Carried.cpuAddress, Carried.cpuAddress, sameView] at same
  obtain ⟨sameBlock, samePlace⟩ := (fits.view other.hasPage other.hasView).2.address_inj
    (sameView ▸ place) place' same
  obtain ⟨chunk, assigned⟩ := (names_map_iff follows).mp byte.cpu
  obtain ⟨chunk', assigned'⟩ := (names_map_iff follows').mp other.cpu
  have sameChunk := distinct (.inl chunk) (.inr chunk') (by
    have valid := byte.valid
    have valid' := other.valid
    omega)
  obtain ⟨sameGroup, quotient⟩ := Prod.mk.inj sameChunk
  rw [Carried.place, Carried.place, samePage] at samePlace
  obtain ⟨remainder, sameOffset⟩ := packed_inj (samePage ▸ small) small' samePlace
  have sameLogical : byte.logical = other.logical := by
    rw [← Nat.div_add_mod byte.logical worker.factor.toNat, quotient, remainder, Nat.div_add_mod]
  refine ⟨sameGroup, sameLogical, ?_, sameOffset⟩
  obtain ⟨refs, listed, member⟩ := byte.inGroup
  obtain ⟨refs', listed', member'⟩ := other.inGroup
  rw [← sameGroup, listed] at listed'
  obtain rfl := Option.some.inj listed'
  apply List.inj_on_of_nodup_map (fits.groups refs (List.mem_of_getElem? listed)).2 member member'
  rw [allocationOf, allocationOf, byte.hasLayer, other.hasLayer, Option.map_some, Option.map_some, allocation]

/-- Under one assignment a byte has one place, whichever transfer carries it. -/
theorem place_of_byte {assign : ℕ × ℕ → ℤ} (follows : FollowsAssignment assign worker gpuSpec cpuSpec)
    (follows' : FollowsAssignment assign worker gpuSpec' cpuSpec') (byte : Carried worker gpuSpec cpuSpec)
    (other : Carried worker gpuSpec' cpuSpec') (group : byte.group = other.group)
    (logical : byte.logical = other.logical) (ref : byte.ref = other.ref) (offset : byte.offset = other.offset) :
    byte.cpuAddress = other.cpuAddress := by
  have sameLayer : byte.layer = other.layer :=
    Option.some.inj (byte.hasLayer.symm.trans (ref ▸ other.hasLayer))
  have sameView : byte.view = other.view :=
    Option.some.inj (byte.hasView.symm.trans (sameLayer ▸ other.hasView))
  have samePage : byte.page = other.page :=
    Option.some.inj (byte.hasPage.symm.trans (sameLayer ▸ other.hasPage))
  have sameBlock : byte.cpuBlock = other.cpuBlock := by
    rw [((names_map_iff follows).mp byte.cpu).2, ((names_map_iff follows').mp other.cpu).2, group, logical]
  rw [Carried.cpuAddress, Carried.cpuAddress, Carried.place, Carried.place, sameView, samePage, sameBlock,
    logical, offset]

end Places

section Copying

/-- The copy loop carries out the moves of its spans in order. -/
theorem copySpans_store {spans : List (ByteSpan × ByteSpan)} (matched : ∀ span ∈ spans, Matched span)
    (memories : Memories) : copySpans true memories spans =
      .ok { memories with
        cpu := copyCells memories.device ((spans.flatMap cells).map Prod.swap) memories.cpu } := by
  induction spans generalizing memories with
  | nil => rfl
  | cons span rest ih =>
    have moves : copyMoves span.2 span.1 = .ok ((cells span).map Prod.swap) := by
      rw [copyMoves, if_pos (matched span (by simp)).1.symm, cells, List.map_map, ← (matched span (by simp)).1]
      rfl
    rw [copySpans, loop, copySpan, if_pos rfl, moves]
    change copySpans true _ rest = _
    rw [ih fun other member => matched other (by simp [member])]
    simp only [List.flatMap_cons, List.map_append, copyCells_append]

theorem copySpans_load {spans : List (ByteSpan × ByteSpan)} (matched : ∀ span ∈ spans, Matched span)
    (memories : Memories) : copySpans false memories spans =
      .ok { memories with device := copyCells memories.cpu (spans.flatMap cells) memories.device } := by
  induction spans generalizing memories with
  | nil => rfl
  | cons span rest ih =>
    have moves : copyMoves span.1 span.2 = .ok (cells span) := by
      rw [copyMoves, if_pos (matched span (by simp)).1, cells]
    rw [copySpans, loop, copySpan, if_neg (by decide), moves]
    change copySpans false _ rest = _
    rw [ih fun other member => matched other (by simp [member])]
    simp only [List.flatMap_cons, copyCells_append]

/-- Spans without a common address on the device side take each device byte from one CPU byte. -/
theorem singleSource_of_apart {spans : List (ByteSpan × ByteSpan)} (matched : ∀ span ∈ spans, Matched span)
    (unaliased : spans.Pairwise fun span other => (addresses span.1).Disjoint (addresses other.1)) :
    SingleSource (spans.flatMap cells) := by
  intro target source other left right
  obtain ⟨span, inSpans, inCells⟩ := List.mem_flatMap.mp left
  obtain ⟨span', inSpans', inCells'⟩ := List.mem_flatMap.mp right
  obtain ⟨i, inside, atLeft⟩ := List.mem_map.mp inCells
  obtain ⟨j, inside', atRight⟩ := List.mem_map.mp inCells'
  obtain ⟨rfl, rfl⟩ := Prod.mk.inj atLeft
  obtain ⟨sameTarget, rfl⟩ := Prod.mk.inj atRight
  by_cases sameSpan : span = span'
  · subst sameSpan
    rw [ByteSpan.address, ByteSpan.address, (matched span inSpans).2] at sameTarget
    obtain rfl : i = j := by omega
    rfl
  · have symmetric : Std.Symm fun span other : ByteSpan × ByteSpan =>
        (addresses span.1).Disjoint (addresses other.1) :=
      ⟨fun _ _ disjoint _ left right => disjoint right left⟩
    have separate := unaliased.forall inSpans inSpans' sameSpan
    exact absurd sameTarget.symm (fun equal => separate (List.mem_map.mpr ⟨i, inside, rfl⟩)
      (List.mem_map.mpr ⟨j, inside', equal.symm⟩))

end Copying

section RoundTrip

variable {worker : AscendLayoutWorker} {gpuSpec : GPULoadStoreSpec} {cpuSpec : CPULoadStoreSpec}

/-- A store takes each CPU byte from one device byte. -/
theorem singleSource_of_follows (fits : WorkerFits worker) (apart : worker.cpuTensors.Pairwise ViewsApart)
    {assign : ℕ × ℕ → ℤ} (follows : FollowsAssignment assign worker gpuSpec cpuSpec)
    (distinct : Set.InjOn assign {chunk | chunk ∈ touchedChunks worker.factor.toNat gpuSpec})
    {spans : List (ByteSpan × ByteSpan)} (resolved : worker.resolve gpuSpec cpuSpec = .ok spans) :
    SingleSource ((spans.flatMap cells).map Prod.swap) := by
  obtain ⟨plan, planned, -⟩ := bind_eq_ok_iff.mp resolved
  have positive := (copyPlan_spec planned).1
  have holds := (resolve_spec fits resolved).2
  intro place source other left right
  rw [List.mem_map_swap, holds] at left right
  obtain ⟨byte, atByte⟩ := left
  obtain ⟨byte', atByte'⟩ := right
  obtain ⟨rfl, rfl⟩ := Prod.mk.inj atByte
  obtain ⟨rfl, samePlace⟩ := Prod.mk.inj atByte'
  obtain ⟨group, logical, ref, offset⟩ := byte_of_place fits positive apart follows follows
    (by simpa using distinct) byte byte' samePlace
  have sameBlock : byte.deviceBlock = byte'.deviceBlock :=
    Names.unique (nodup_blocksOf _) byte.device (by rw [group, logical]; exact byte'.device)
  have sameLayer : byte.layer = byte'.layer :=
    Option.some.inj (byte.hasLayer.symm.trans (by rw [ref]; exact byte'.hasLayer))
  rw [Carried.deviceAddress, Carried.deviceAddress, sameBlock, sameLayer, offset]

/-- The device block that a transfer has for a logical block of a group. -/
def HasBlock (gpuSpec : GPULoadStoreSpec) (group logical : ℕ) (deviceBlock : ℤ) : Prop :=
  Names (logicalBlocks gpuSpec) gpuSpec.blockIds (group, logical) deviceBlock

/-- **Store and load round trip.** Whatever windows the two transfers have and whatever becomes of the
device memory in between, a device block loaded for a logical block that was stored holds the bytes that
the store read for it, in every row of every layer of its group; nothing else is written. -/
theorem store_load_roundTrip {τ ρ : Type} {viewRows : τ → ℕ → Except AscendError ByteRows}
    {createNextView : ρ → ℤ → Except AscendError (ByteRows × ρ)} (handsOut : HandsOutViews createNextView)
    {config : KVCacheConfig} {caches : Dict String (LayerCache τ)} {layout : AscendLayout}
    (built : buildLayout viewRows config caches = .ok layout) {blockSizeFactor : ℤ} {region left : ρ}
    {worker : AscendLayoutWorker}
    (made : AscendLayoutWorker.init createNextView layout blockSizeFactor region = .ok (worker, left))
    (apart : worker.cpuTensors.Pairwise ViewsApart)
    {storeGpu loadGpu : GPULoadStoreSpec} {storeCpu loadCpu : CPULoadStoreSpec}
    {storeSpans loadSpans : List (ByteSpan × ByteSpan)}
    (storeResolved : worker.resolve storeGpu storeCpu = .ok storeSpans)
    (loadResolved : worker.resolve loadGpu loadCpu = .ok loadSpans) {assign : ℕ × ℕ → ℤ}
    (storeFollows : FollowsAssignment assign worker storeGpu storeCpu)
    (loadFollows : FollowsAssignment assign worker loadGpu loadCpu)
    (distinct : Set.InjOn assign {chunk | chunk ∈ touchedChunks worker.factor.toNat storeGpu ∨
      chunk ∈ touchedChunks worker.factor.toNat loadGpu})
    (unaliased : loadSpans.Pairwise fun span other => (addresses span.1).Disjoint (addresses other.1))
    (before : Memories) (changed : ℕ → UInt8) :
    ∃ stored loaded, copySpans true before storeSpans = .ok stored ∧
      copySpans false ⟨changed, stored.cpu⟩ loadSpans = .ok loaded ∧
      (∀ group logical storeBlock loadBlock, HasBlock storeGpu group logical storeBlock →
        HasBlock loadGpu group logical loadBlock → ∀ refs, layout.groupDataRefs[group]? = some refs →
        ∀ ref ∈ refs, ∀ layer, layout.layers[ref.tensorIdx]? = some layer → ∀ row ∈ layer.2,
        ∀ i < row.shape1, loaded.device (row.address loadBlock.toNat i) =
          before.device (row.address storeBlock.toNat i)) ∧
      stored.device = before.device ∧
      (∀ address, (∀ span ∈ storeSpans, address ∉ addresses span.2) → stored.cpu address = before.cpu address) ∧
      loaded.cpu = stored.cpu ∧
      (∀ address, (∀ span ∈ loadSpans, address ∉ addresses span.1) → loaded.device address = changed address) := by
  obtain ⟨fits, -, sameRefs, sameLayers⟩ := workerFits_of_init handsOut (wellFormed_of_buildLayout built) made
  obtain ⟨storeMatched, storeCells⟩ := resolve_spec fits storeResolved
  obtain ⟨loadMatched, loadCells⟩ := resolve_spec fits loadResolved
  have singleStore := singleSource_of_follows fits apart storeFollows
    (distinct.mono fun _ member => .inl member) storeResolved
  have singleLoad := singleSource_of_apart loadMatched unaliased
  refine ⟨_, _, copySpans_store storeMatched before, copySpans_load loadMatched _, ?_, rfl, ?_, rfl, ?_⟩
  · intro group logical storeBlock loadBlock stored loaded refs listed ref member layer hasLayer row inLayer i
      inside
    rw [← sameRefs] at listed
    rw [← sameLayers] at hasLayer
    obtain ⟨offset, bound, located⟩ := exists_packedAddress inLayer inside
    obtain ⟨out, outGroup, outLogical, outRef, outOffset, fromDevice⟩ :=
      exists_carried fits storeResolved stored listed member hasLayer bound
    obtain ⟨back, backGroup, backLogical, backRef, backOffset, toDevice⟩ :=
      exists_carried fits loadResolved loaded listed member hasLayer bound
    have samePlace : out.cpuAddress = back.cpuAddress :=
      place_of_byte storeFollows loadFollows out back (outGroup.trans backGroup.symm)
        (outLogical.trans backLogical.symm) (outRef.trans backRef.symm) (outOffset.trans backOffset.symm)
    rw [located] at fromDevice toDevice
    rw [← fromDevice, ← toDevice]
    have wrote : (out.cpuAddress, out.deviceAddress) ∈ (storeSpans.flatMap cells).map Prod.swap :=
      (List.mem_map_swap _ _ _).mpr ((storeCells _).mpr ⟨out, rfl⟩)
    have read : (back.deviceAddress, out.cpuAddress) ∈ loadSpans.flatMap cells :=
      samePlace ▸ (loadCells _).mpr ⟨back, rfl⟩
    exact copyCells_roundTrip before.device changed before.cpu singleStore singleLoad wrote read
  · intro address outside
    apply copyCells_frame _ _
    intro move member
    obtain ⟨cell, inCells, rfl⟩ := List.mem_map.mp member
    obtain ⟨span, inSpans, inSpan⟩ := List.mem_flatMap.mp inCells
    obtain ⟨i, ranged, rfl⟩ := List.mem_map.mp inSpan
    rintro rfl
    refine outside span inSpans (List.mem_map.mpr ⟨i, ?_, rfl⟩)
    rwa [← (storeMatched span inSpans).1]
  · intro address outside
    apply copyCells_frame _ _
    intro move member
    obtain ⟨span, inSpans, inSpan⟩ := List.mem_flatMap.mp member
    obtain ⟨i, ranged, rfl⟩ := List.mem_map.mp inSpan
    rintro rfl
    exact outside span inSpans (List.mem_map.mpr ⟨i, ranged, rfl⟩)

/-! Two layers of different groups that share one allocation of four blocks, as seen by a worker that keeps
two logical blocks in a CPU block. -/

/-- Rows of `width` bytes, one after another. -/
def denseRows (base count width : ℕ) : ByteRows := ⟨⟨"npu", 0⟩, base, count, width, width, 1⟩

def sharedConfig : KVCacheConfig where
  numBlocks := 4
  kvCacheTensors := [⟨96, 0, ["attn", "mamba"]⟩]
  kvCacheGroups := [⟨["attn"], .layer (.attention 24)⟩, ⟨["mamba"], .layer (.mamba 24)⟩]

def sharedCaches : Dict String (LayerCache ByteRows) :=
  (Dict.empty.set "attn" (.tensors [denseRows 32 4 8, denseRows 64 4 8])).set "mamba"
    (.tensors [denseRows 0 4 8, denseRows 32 4 16])

def sharedLayout : AscendLayout where
  pageSizes := [24]
  layers := [(0, [denseRows 32 4 8, denseRows 64 4 8]), (0, [denseRows 0 4 8, denseRows 32 4 16])]
  groupDataRefs := [[⟨0, 16⟩], [⟨1, 24⟩]]

/-- A host region that hands out views of four blocks, one view after another. -/
def nextHostView (used : ℕ) (size : ℤ) : Except AscendError (ByteRows × ℕ) :=
  if size < 0 then .error .runtimeError
  else .ok (⟨⟨"cpu", 0⟩, used, 4, size.toNat, size.toNat, 1⟩, used + 4 * size.toNat)

def sharedWorker : AscendLayoutWorker where
  factor := 2
  refs := sharedLayout.groupDataRefs
  layers := sharedLayout.layers
  pages := [24]
  cpuTensors := [⟨⟨"cpu", 0⟩, 0, 4, 48, 48, 1⟩]

/-- Two blocks of the first group, from logical block 1, and logical block 3 of the second. -/
def wideTransfer : GPULoadStoreSpec := ⟨[1, 2, 3], [2, 1], [1, 3]⟩

/-- Only logical block 2 of the first group, to another device block, and block 3 of the second. -/
def narrowTransfer : GPULoadStoreSpec := ⟨[0, 3], [1, 1], [2, 3]⟩

theorem nextHostView_handsOut : HandsOutViews nextHostView := by
  intro region size view next handed
  rw [nextHostView] at handed
  split_ifs at handed with negative
  obtain ⟨rfl, -⟩ := Prod.mk.inj (Except.ok.inj handed)
  exact ⟨Int.toNat_of_nonneg (not_lt.mp negative), rfl, le_refl _⟩

def wideSpans : List (ByteSpan × ByteSpan) :=
  [(⟨40, 8, 1⟩, ⟨24, 8, 1⟩), (⟨72, 8, 1⟩, ⟨32, 8, 1⟩), (⟨48, 8, 1⟩, ⟨48, 8, 1⟩), (⟨80, 8, 1⟩, ⟨56, 8, 1⟩),
    (⟨24, 8, 1⟩, ⟨120, 8, 1⟩), (⟨80, 16, 1⟩, ⟨128, 16, 1⟩)]

def narrowSpans : List (ByteSpan × ByteSpan) :=
  [(⟨32, 8, 1⟩, ⟨48, 8, 1⟩), (⟨64, 8, 1⟩, ⟨56, 8, 1⟩), (⟨24, 8, 1⟩, ⟨120, 8, 1⟩), (⟨80, 16, 1⟩, ⟨128, 16, 1⟩)]

theorem store_load_roundTrip_shared : ∃ stored loaded,
    copySpans true ⟨fun address => address.toUInt8, fun _ => 0⟩ wideSpans = .ok stored ∧
    copySpans false ⟨fun _ => 7, stored.cpu⟩ narrowSpans = .ok loaded ∧ loaded.device 67 = 83 := by
  have built : buildLayout (fun rows _ => .ok rows) sharedConfig sharedCaches = .ok sharedLayout := rfl
  have made : AscendLayoutWorker.init nextHostView sharedLayout 2 0 = .ok (sharedWorker, 192) := rfl
  have storeResolved : sharedWorker.resolve wideTransfer ⟨[0, 1, 2]⟩ = .ok wideSpans := rfl
  have loadResolved : sharedWorker.resolve narrowTransfer ⟨[1, 2]⟩ = .ok narrowSpans := rfl
  -- the CPU block of each chunk touched: the sum of its group and its number
  let assign : ℕ × ℕ → ℤ := fun chunk => chunk.1 + chunk.2
  have storeFollows : FollowsAssignment assign sharedWorker wideTransfer ⟨[0, 1, 2]⟩ := rfl
  have loadFollows : FollowsAssignment assign sharedWorker narrowTransfer ⟨[1, 2]⟩ := rfl
  have distinct : Set.InjOn assign {chunk | chunk ∈ touchedChunks sharedWorker.factor.toNat wideTransfer ∨
      chunk ∈ touchedChunks sharedWorker.factor.toNat narrowTransfer} := by
    have decided : ∀ chunk ∈ touchedChunks sharedWorker.factor.toNat wideTransfer ++
          touchedChunks sharedWorker.factor.toNat narrowTransfer,
        ∀ other ∈ touchedChunks sharedWorker.factor.toNat wideTransfer ++
          touchedChunks sharedWorker.factor.toNat narrowTransfer,
        (chunk.1 + chunk.2 : ℤ) = other.1 + other.2 → chunk = other := by decide
    intro chunk member other member' same
    exact decided chunk (List.mem_append.mpr member) other (List.mem_append.mpr member') same
  have unaliased : narrowSpans.Pairwise
      fun span other => (addresses span.1).Disjoint (addresses other.1) := by
    simp only [List.disjoint_left]
    decide
  obtain ⟨stored, loaded, wrote, read, restored, -⟩ := store_load_roundTrip nextHostView_handsOut built made
    (List.pairwise_singleton _ _) storeResolved loadResolved storeFollows loadFollows distinct unaliased
    ⟨fun address => address.toUInt8, fun _ => 0⟩ fun _ => 7
  have same := restored 0 2 2 0 ⟨1, rfl, rfl⟩ ⟨0, rfl, rfl⟩ _ rfl ⟨0, 16⟩ (by simp) _ rfl (denseRows 64 4 8)
    (by simp) 3 (by decide)
  exact ⟨stored, loaded, wrote, read, same⟩

end RoundTrip

end KVTiering.Soundness.AscendLayoutWorker
