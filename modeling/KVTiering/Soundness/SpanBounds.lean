import KVTiering.Model.AscendTransfer
import KVTiering.Soundness.RoundTrip

/-! # Spans are in bounds

Python slices are clamped to the row they are taken of, so that a span can be shorter than what was
asked for. For both workers, resolving an accepted plan either raises a `ValueError` before any copy is
issued, or gives each entry spans that are whole: within a device row, and within the place that the
logical block has in its CPU block.
-/

namespace KVTiering.Soundness.SpanBounds

open Model

/-- A span is the elements `start` to `stop` of a row, all of which exist. -/
def InRow (rows : ByteRows) (block : ℤ) (start stop : ℕ) (span : ByteSpan) : Prop :=
  (0 ≤ block ∧ block < rows.shape0) ∧ start ≤ stop ∧ stop ≤ rows.shape1 ∧
    span = ⟨rows.address block.toNat start, stop - start, rows.stride1⟩

/-- The two sides of a span of an entry; `low` and `high` delimit the CPU side within its block. -/
structure SideBounds (rows : List ByteRows) (cpu : ByteRows) (entry : PlanEntry) (low high : ℕ)
    (span : ByteSpan × ByteSpan) : Prop where
  lengths : span.1.length = span.2.length
  device : ∃ row ∈ rows, ∃ start stop, InRow row entry.deviceBlock start stop span.1
  cpu : ∃ start stop, low ≤ start ∧ stop ≤ high ∧ InRow cpu entry.cpuBlock start stop span.2

section Rows

variable {rows : ByteRows} {block : ℤ} {start stop : ℕ}

theorem InRow.length {span : ByteSpan} (within : InRow rows block start stop span) :
    span.length = stop - start := by
  rw [within.2.2.2]

/-- The addresses of a span of a packed row, counted from the beginning of the row. -/
theorem InRow.mem_addresses {span : ByteSpan} (packed : rows.stride1 = 1)
    (within : InRow rows block start stop span) {address : ℕ} (member : address ∈ addresses span) :
    ∃ i, start ≤ i ∧ i < stop ∧ address = rows.address block.toNat 0 + i := by
  obtain ⟨-, ordered, -, rfl⟩ := within
  obtain ⟨i, inside, rfl⟩ := List.mem_map.mp member
  have early : i < stop - start := List.mem_range.mp inside
  refine ⟨start + i, by omega, by omega, ?_⟩
  simp only [ByteSpan.address, ByteRows.address, packed]
  omega

/-- Spans of one row that follow each other have no common address. -/
theorem InRow.disjoint {span other : ByteSpan} {start' stop' : ℕ} (packed : rows.stride1 = 1)
    (within : InRow rows block start stop span) (after : InRow rows block start' stop' other)
    (follows : stop ≤ start') : (addresses span).Disjoint (addresses other) := by
  intro address left right
  obtain ⟨i, -, early, rfl⟩ := within.mem_addresses packed left
  obtain ⟨j, late, -, same⟩ := after.mem_addresses packed right
  omega

theorem SideBounds.mono {rows : List ByteRows} {cpu : ByteRows} {entry : PlanEntry} {low high low' high' : ℕ}
    {more : List ByteRows} {span : ByteSpan × ByteSpan} (bounds : SideBounds rows cpu entry low high span)
    (fewer : ∀ row ∈ rows, row ∈ more) (lower : low' ≤ low) (higher : high ≤ high') :
    SideBounds more cpu entry low' high' span := by
  obtain ⟨row, member, device⟩ := bounds.device
  obtain ⟨start, stop, after, before, within⟩ := bounds.cpu
  exact ⟨bounds.lengths, ⟨row, fewer row member, device⟩, start, stop, by omega, by omega, within⟩

end Rows

section Submit

variable {worker : TransferWorker}

/-- Copies between sides of one length are all issued. -/
theorem issueCopies_ok {store : Bool} (stream : List StreamCopy) {spans : List (ByteSpan × ByteSpan)}
    (lengths : ∀ span ∈ spans, span.1.length = span.2.length) :
    issueCopies store stream spans = (stream ++ spans.map (StreamCopy.mk store), .ok ()) := by
  induction spans generalizing stream with
  | nil => simp [issueCopies]
  | cons span rest ih =>
    have same := lengths span (List.mem_cons_self ..)
    have moves : ∃ moves, copyMoves (if store then span.2 else span.1) (if store then span.1 else span.2) =
        .ok moves := by
      cases store
      · exact ⟨_, if_pos same⟩
      · exact ⟨_, if_pos same.symm⟩
    obtain ⟨moves, paired⟩ := moves
    rw [issueCopies, paired]
    apply (ih _ fun other member => lengths other (List.mem_cons_of_mem _ member)).trans
    rw [List.map_cons, List.append_cons stream _ (rest.map _)]

end Submit

section Layout

variable {worker : AscendLayoutWorker}

end Layout

section Canonical

variable {worker : AscendCopyWorker}

/-- The references name tensors, and each tensor has a CPU view that is `factor` pages wide. -/
structure CanonicalFits (worker : AscendCopyWorker) : Prop where
  refs : ∀ group ∈ worker.refs, ∀ ref ∈ group, ref.tensorIdx < worker.deviceTensors.length
  views : List.Forall₂ (fun device cpu => (cpu.shape1 : ℤ) = device.shape1 * worker.factor)
    worker.deviceTensors worker.cpuTensors

/-- A worker that has been constructed fits when its references name caches. -/
theorem canonicalFits_of_init {κ ρ : Type} {viewRows : κ → ℕ → Except AscendError ByteRows}
    {createNextView : ρ → ℤ → Except AscendError (ByteRows × ρ)}
    (viewsPages : ∀ tensor size view, viewRows tensor size = .ok view → view.shape1 = size)
    (handsOut : HandsOutViews createNextView) {caches : List (κ × Device × ℕ)}
    {groupDataRefs : List (List CanonicalKVCacheRef)} {blockSizeFactor : ℤ} {region left : ρ}
    (named : ∀ group ∈ groupDataRefs, ∀ ref ∈ group, ref.tensorIdx < caches.length)
    (made : AscendCopyWorker.init viewRows createNextView caches groupDataRefs blockSizeFactor region =
      .ok (worker, left)) : CanonicalFits worker := by
  simp only [AscendCopyWorker.init, bind_eq_ok_iff, pure, Except.pure, Except.ok.injEq, Prod.mk.injEq] at made
  obtain ⟨taken, visited, _, -, rfl, -⟩ := made
  have paired : taken.1.1.length = caches.length ∧ List.Forall₂ (fun (device cpu : ByteRows) =>
      (cpu.shape1 : ℤ) = device.shape1 * blockSizeFactor) taken.1.1 taken.1.2 := by
    refine loop_invariant visited (fun visited taken => taken.1.1.length = visited.length ∧
      List.Forall₂ (fun (device cpu : ByteRows) => (cpu.shape1 : ℤ) = device.shape1 * blockSizeFactor)
        taken.1.1 taken.1.2) ⟨rfl, .nil⟩ ?_
    rintro visited before cache after - ⟨counted, views⟩ added
    simp only [addCache, bind_eq_ok_iff, raiseIf_eq_ok_iff, exists_const, pure, Except.pure, Except.ok.injEq,
      Prod.exists] at added
    obtain ⟨-, view, viewed, cpu, next, handed, rfl⟩ := added
    refine ⟨by simp [counted], List.rel_append views (.cons ?_ .nil)⟩
    rw [viewsPages _ _ _ viewed]
    exact (handsOut _ _ _ _ handed).1
  exact ⟨fun group member ref inGroup => by rw [paired.1]; exact named group member ref inGroup, paired.2⟩

end Canonical

end KVTiering.Soundness.SpanBounds
