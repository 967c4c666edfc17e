import KVTiering.Model.AscendWorker

/-! # What an accepted layout promises

Every layer of a layout that `buildLayout` accepts fits a page of its allocation, every reference
names a layer and has its size, and the layers of one group live in different allocations. The worker
built from it has one CPU view for each allocation.
-/

namespace KVTiering.Soundness

open Model

/-- Rows that are contiguous and do not overlap one another. -/
def Packed (rows : ByteRows) : Prop := rows.stride1 = 1 ∧ rows.shape1 ≤ rows.stride0

/-- The layer lives in an allocation and fits its page. -/
def LayerFits (pages : List ℕ) (layer : ℕ × List ByteRows) : Prop :=
  ∃ page, pages[layer.1]? = some page ∧ 0 < rowBytes layer.2 ∧ rowBytes layer.2 ≤ page ∧
    ∀ row ∈ layer.2, Packed row

/-- The allocation of the layer that a reference names. -/
def allocationOf (layers : List (ℕ × List ByteRows)) (ref : CanonicalKVCacheRef) : Option ℕ :=
  layers[ref.tensorIdx]?.map Prod.fst

/-- The references of a group name layers of their sizes, in different allocations. -/
def GroupFits (layers : List (ℕ × List ByteRows)) (group : List CanonicalKVCacheRef) : Prop :=
  (∀ ref ∈ group, ∃ layer, layers[ref.tensorIdx]? = some layer ∧ ref.pageSizeBytes = rowBytes layer.2) ∧
    (group.map (allocationOf layers)).Nodup

structure WellFormed (layout : AscendLayout) : Prop where
  layers : ∀ layer ∈ layout.layers, LayerFits layout.pageSizes layer
  groups : ∀ group ∈ layout.groupDataRefs, GroupFits layout.layers group

theorem getIndex_eq_ok_iff {ν : Type} {xs : List ν} {index : ℕ} {value : ν} :
    getIndex xs index = .ok value ↔ xs[index]? = some value := by
  cases found : xs[index]? with
  | none => simp [getIndex, found]
  | some other => simp [getIndex, found]

/-- Layers found later do not disturb a group. -/
theorem GroupFits.append {layers : List (ℕ × List ByteRows)} {group : List CanonicalKVCacheRef}
    (fits : GroupFits layers group) (more : List (ℕ × List ByteRows)) : GroupFits (layers ++ more) group := by
  have same : ∀ ref ∈ group, (layers ++ more)[ref.tensorIdx]? = layers[ref.tensorIdx]? := by
    intro ref member
    obtain ⟨layer, found, -⟩ := fits.1 ref member
    exact List.getElem?_append_left (List.getElem?_eq_some_iff.mp found).1
  refine ⟨fun ref member => ?_, ?_⟩
  · rw [same ref member]
    exact fits.1 ref member
  · have maps : group.map (allocationOf (layers ++ more)) = group.map (allocationOf layers) :=
      List.map_congr_left fun ref member => by rw [allocationOf, allocationOf, same ref member]
    rw [maps]
    exact fits.2

/-- A reference to a layer of another allocation extends a group. -/
theorem GroupFits.extend {layers : List (ℕ × List ByteRows)} {group : List CanonicalKVCacheRef}
    (fits : GroupFits layers group) (layer : ℕ × List ByteRows)
    (unused : ∀ ref ∈ group, allocationOf layers ref ≠ some layer.1) :
    GroupFits (layers ++ [layer]) (group ++ [⟨layers.length, rowBytes layer.2⟩]) := by
  have kept := fits.append [layer]
  have last : (layers ++ [layer])[layers.length]? = some layer := by simp
  refine ⟨fun ref member => ?_, ?_⟩
  · rcases List.mem_append.mp member with found | found
    · exact kept.1 ref found
    · rw [List.mem_singleton.mp found]
      exact ⟨layer, last, rfl⟩
  · rw [List.map_append, List.nodup_append]
    refine ⟨kept.2, by simp, ?_⟩
    intro allocation member other found same
    obtain ⟨ref, inGroup, rfl⟩ := List.mem_map.mp member
    obtain ⟨old, foundOld, -⟩ := fits.1 ref inGroup
    rw [List.map_singleton, List.mem_singleton, allocationOf, last] at found
    have before : allocationOf (layers ++ [layer]) ref = allocationOf layers ref := by
      rw [allocationOf, List.getElem?_append_left (List.getElem?_eq_some_iff.mp foundOld).1, allocationOf]
    exact unused ref inGroup (by rw [← before, same, found]; rfl)

section

variable {τ : Type} {viewRows : τ → ℕ → Except AscendError ByteRows} {count : ℕ}

theorem packed_of_rows {tensors : List τ} {rows : List ByteRows}
    (viewed : loop (addRow viewRows count) [] tensors = .ok rows) : ∀ row ∈ rows, Packed row := by
  apply loop_invariant viewed (fun _ rows => ∀ row ∈ rows, Packed row) (by simp)
  intro _ before tensor after _ holds added
  simp only [addRow, bind_eq_ok_iff, raiseIf_eq_ok_iff, exists_and_left, pure, Except.pure, exists_const,
    Except.ok.injEq] at added
  obtain ⟨row, -, accepted, rfl⟩ := added
  intro other member
  rcases List.mem_append.mp member with found | found
  · exact holds other found
  · rw [List.mem_singleton.mp found]
    exact ⟨by omega, by omega⟩

variable {allocations : Allocations} {caches : Dict String (LayerCache τ)}

/-- What the loop over the layers of a group keeps. -/
structure Reading (pages : List ℕ) (before : List (ℕ × List ByteRows)) (group : GroupState) : Prop where
  prefixed : ∃ more, group.layers = before ++ more
  layers : ∀ layer ∈ group.layers, LayerFits pages layer
  fits : GroupFits group.layers group.refs
  used : ∀ ref ∈ group.refs, ∃ index ∈ group.used, allocationOf group.layers ref = some index

theorem Reading.addLayer {before : List (ℕ × List ByteRows)} {spec : KVCacheSpec} {group next : GroupState}
    {name : String} (reading : Reading allocations.pages before group)
    (added : addLayer viewRows count allocations caches spec group name = .ok next) :
    Reading allocations.pages before next := by
  simp only [Model.addLayer, bind_eq_ok_iff, raiseIf_eq_ok_iff, pure, Except.pure, exists_const, Except.ok.injEq,
    getIndex_eq_ok_iff] at added
  obtain ⟨_, -, index, -, free, cache, -, tensors, -, rows, viewed, page, found, small, rfl⟩ := added
  obtain ⟨more, grown⟩ := reading.prefixed
  have fits : GroupFits (group.layers ++ [(index, rows)])
      (group.refs ++ [⟨group.layers.length, rowBytes rows⟩]) := by
    apply reading.fits.extend (index, rows)
    intro ref member same
    obtain ⟨other, taken, lives⟩ := reading.used ref member
    have overlap : index = other := Option.some.inj (same.symm.trans lives)
    exact free (overlap ▸ taken)
  refine ⟨⟨more ++ [(index, rows)], by simp [grown]⟩, ?_, fits, ?_⟩
  · intro layer member
    rcases List.mem_append.mp member with old | new
    · exact reading.layers layer old
    · have sized : 0 < rowBytes rows ∧ rowBytes rows ≤ page := by omega
      rw [List.mem_singleton.mp new]
      exact ⟨page, found, sized.1, sized.2, packed_of_rows viewed⟩
  · intro ref member
    rcases List.mem_append.mp member with old | new
    · obtain ⟨other, taken, lives⟩ := reading.used ref old
      refine ⟨other, List.mem_cons_of_mem _ taken, ?_⟩
      obtain ⟨layer, present, -⟩ := reading.fits.1 ref old
      rw [allocationOf, List.getElem?_append_left (List.getElem?_eq_some_iff.mp present).1]
      exact lives
    · rw [List.mem_singleton.mp new]
      exact ⟨index, by simp, by simp [allocationOf]⟩

/-- A layout that is accepted is well formed. -/
theorem wellFormed_of_buildLayout {config : KVCacheConfig} {layout : AscendLayout}
    (built : buildLayout viewRows config caches = .ok layout) : WellFormed layout := by
  simp only [buildLayout, bind_eq_ok_iff, raiseIf_eq_ok_iff, pure, Except.pure, exists_const, Except.ok.injEq] at built
  obtain ⟨-, allocations, -, done, visited, rfl⟩ := built
  let holds (read : List (ℕ × List ByteRows) × List (List CanonicalKVCacheRef)) : Prop :=
    WellFormed ⟨allocations.pages, read.1, read.2⟩
  refine loop_invariant visited (fun _ => holds) ⟨by simp, by simp⟩ ?_
  intro _ before group after _ wellFormed added
  simp only [addGroup, bind_eq_ok_iff, pure, Except.pure, Except.ok.injEq] at added
  obtain ⟨last, read, rfl⟩ := added
  have reading : Reading allocations.pages before.1 last := by
    refine loop_invariant read (fun _ => Reading allocations.pages before.1) ?_ ?_
    · exact ⟨⟨[], by simp⟩, wellFormed.layers, ⟨by simp, by simp⟩, by simp⟩
    · exact fun _ _ _ _ _ reading added => reading.addLayer added
  obtain ⟨more, grown⟩ := reading.prefixed
  refine ⟨reading.layers, fun refs member => ?_⟩
  rcases List.mem_append.mp member with old | new
  · change GroupFits last.layers refs
    rw [grown]
    exact (wellFormed.groups refs old).append more
  · rw [List.mem_singleton.mp new]
    exact reading.fits

end

/-- The views that the host region hands out have the width asked for and packed rows. -/
def HandsOutViews {ρ : Type} (createNextView : ρ → ℤ → Except AscendError (ByteRows × ρ)) : Prop :=
  ∀ region size view next, createNextView region size = .ok (view, next) →
    (view.shape1 : ℤ) = size ∧ Packed view

/-- A worker of a well-formed layout has one CPU view for each allocation, `factor` pages wide. -/
structure WorkerFits (worker : AscendLayoutWorker) : Prop where
  layers : ∀ layer ∈ worker.layers, LayerFits worker.pages layer
  groups : ∀ group ∈ worker.refs, GroupFits worker.layers group
  views : List.Forall₂ (fun (page : ℕ) view => (view.shape1 : ℤ) = page * worker.factor ∧ Packed view)
    worker.pages worker.cpuTensors

theorem workerFits_of_init {ρ : Type} {createNextView : ρ → ℤ → Except AscendError (ByteRows × ρ)}
    (handsOut : HandsOutViews createNextView) {layout : AscendLayout} (wellFormed : WellFormed layout)
    {blockSizeFactor : ℤ} {region left : ρ} {worker : AscendLayoutWorker}
    (made : AscendLayoutWorker.init createNextView layout blockSizeFactor region = .ok (worker, left)) :
    WorkerFits worker ∧ worker.factor = blockSizeFactor ∧ worker.refs = layout.groupDataRefs ∧
      worker.layers = layout.layers := by
  simp only [AscendLayoutWorker.init, bind_eq_ok_iff, raiseIf_eq_ok_iff, pure, Except.pure, exists_const,
    Except.ok.injEq, Prod.mk.injEq] at made
  obtain ⟨-, -, taken, visited, rfl, -⟩ := made
  refine ⟨⟨wellFormed.layers, wellFormed.groups, ?_⟩, rfl, rfl, rfl⟩
  refine loop_invariant visited (fun pages taken => List.Forall₂ (fun (page : ℕ) view =>
    (view.shape1 : ℤ) = (page : ℤ) * blockSizeFactor ∧ Packed view) pages taken.1) .nil ?_
  intro pages before page after _ views added
  simp only [addCpuTensor, bind_eq_ok_iff, pure, Except.pure, Except.ok.injEq, Prod.exists] at added
  obtain ⟨view, next, handed, rfl⟩ := added
  exact List.rel_append views (.cons (handsOut _ _ _ _ handed) .nil)

end KVTiering.Soundness
