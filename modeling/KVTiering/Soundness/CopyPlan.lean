import KVTiering.Soundness.AscendLayout
import Mathlib.Data.Set.Function

/-! # The chunk mapping of a transfer

A group of a transfer covers a window of logical blocks, and the CPU blocks given for it stand for the
chunks of `factor` logical blocks that the window touches. An accepted plan has an entry for each
reference and logical block of each group, pairing the device block given for the logical block with
the CPU block given for its chunk.
-/

namespace KVTiering.Soundness

open Model

/-- A group of a transfer, its number of blocks, and the first of its logical blocks. -/
structure Window where
  group : ℕ
  size : ℕ
  logical : ℕ

/-- The logical blocks of a window, in the order of its device blocks. -/
def Window.blocks (window : Window) : List (ℕ × ℕ) :=
  (List.range window.size).map fun index => (window.group, window.logical + index)

/-- The number of chunks that hold a logical block of the window. -/
def Window.chunkCount (window : Window) (factor : ℕ) : ℕ :=
  if window.size = 0 then 0
  else (window.logical + window.size - 1) / factor + 1 - window.logical / factor

/-- The chunks that hold a logical block of the window, in order. -/
def Window.chunks (factor : ℕ) (window : Window) : List (ℕ × ℕ) :=
  (List.range (window.chunkCount factor)).map fun index => (window.group, window.logical / factor + index)

def windowsOf (sizes : List (ℤ × ℤ)) : List Window :=
  sizes.zipIdx.map fun item => ⟨item.2, item.1.1.toNat, item.1.2.toNat⟩

def blocksOf (sizes : List (ℤ × ℤ)) : List (ℕ × ℕ) := (windowsOf sizes).flatMap Window.blocks

def chunksOf (factor : ℕ) (sizes : List (ℤ × ℤ)) : List (ℕ × ℕ) :=
  (windowsOf sizes).flatMap (Window.chunks factor)

/-- The (group, logical block) pairs of a transfer, in the order of its device blocks. -/
def logicalBlocks (gpuSpec : GPULoadStoreSpec) : List (ℕ × ℕ) :=
  blocksOf (gpuSpec.groupSizes.zip gpuSpec.blockIndices)

/-- The (group, chunk number) pairs of a transfer, in the order of its CPU blocks. -/
def touchedChunks (factor : ℕ) (gpuSpec : GPULoadStoreSpec) : List (ℕ × ℕ) :=
  chunksOf factor (gpuSpec.groupSizes.zip gpuSpec.blockIndices)

/-- The list `ids` gives `id` at a position where `labels` has `label`. -/
def Names (labels : List (ℕ × ℕ)) (ids : List ℤ) (label : ℕ × ℕ) (id : ℤ) : Prop :=
  ∃ position : ℕ, labels[position]? = some label ∧ ids[position]? = some id

section Names

variable {labels more : List (ℕ × ℕ)} {ids : List ℤ} {label : ℕ × ℕ} {id : ℤ}

theorem Names.mem (names : Names labels ids label id) : label ∈ labels := by
  obtain ⟨position, found, -⟩ := names
  exact List.mem_of_getElem? found

theorem Names.unique {other : ℤ} (nodup : labels.Nodup) (names : Names labels ids label id)
    (again : Names labels ids label other) : id = other := by
  obtain ⟨position, found, given⟩ := names
  obtain ⟨second, foundSecond, givenSecond⟩ := again
  have inside : position < labels.length := (List.getElem?_eq_some_iff.mp found).1
  have same : position = second := (List.getElem?_inj inside nodup).mp (found.trans foundSecond.symm)
  subst same
  exact Option.some.inj (given.symm.trans givenSecond)

theorem names_append_left (absent : label ∉ more) :
    Names (labels ++ more) ids label id ↔ Names labels ids label id := by
  constructor
  · rintro ⟨position, found, given⟩
    by_cases early : position < labels.length
    · exact ⟨position, by rwa [List.getElem?_append_left early] at found, given⟩
    · rw [List.getElem?_append_right (by omega)] at found
      exact absurd (List.mem_of_getElem? found) absent
  · rintro ⟨position, found, given⟩
    refine ⟨position, ?_, given⟩
    rwa [List.getElem?_append_left (List.getElem?_eq_some_iff.mp found).1]

theorem names_append_right (absent : label ∉ labels) :
    Names (labels ++ more) ids label id ↔
      ∃ position : ℕ, more[position]? = some label ∧ ids[labels.length + position]? = some id := by
  constructor
  · rintro ⟨position, found, given⟩
    by_cases early : position < labels.length
    · rw [List.getElem?_append_left early] at found
      exact absurd (List.mem_of_getElem? found) absent
    · rw [List.getElem?_append_right (by omega)] at found
      exact ⟨_, found, by rwa [Nat.add_sub_cancel' (by omega)]⟩
  · rintro ⟨position, found, given⟩
    refine ⟨_, ?_, given⟩
    rwa [List.getElem?_append_right (by omega), Nat.add_sub_cancel_left]

/-- Every label is given an identifier when there are as many of both. -/
theorem exists_names (enough : ids.length = labels.length) (member : label ∈ labels) :
    ∃ id, Names labels ids label id := by
  obtain ⟨position, found⟩ := List.mem_iff_getElem?.mp member
  have inside : position < ids.length := by
    rw [enough]
    exact (List.getElem?_eq_some_iff.mp found).1
  exact ⟨ids[position], position, found, List.getElem?_eq_getElem inside⟩

theorem names_map_iff {assign : ℕ × ℕ → ℤ} (follows : ids = labels.map assign) :
    Names labels ids label id ↔ label ∈ labels ∧ id = assign label := by
  subst follows
  constructor
  · intro names
    obtain ⟨position, found, given⟩ := names
    rw [List.getElem?_map, found] at given
    exact ⟨List.mem_of_getElem? found, (Option.some.inj given).symm⟩
  · rintro ⟨member, rfl⟩
    obtain ⟨position, found⟩ := List.mem_iff_getElem?.mp member
    exact ⟨position, found, by rw [List.getElem?_map, found]; rfl⟩

/-- Numbered labels of a further group are named by their number, the earlier labels as before. -/
theorem names_append_range {next base count : ℕ} (early : ∀ label ∈ labels, label.1 < next)
    {group number : ℕ} :
    Names (labels ++ (List.range count).map fun index => (next, base + index)) ids (group, number) id ↔
      Names labels ids (group, number) id ∨
        group = next ∧ ∃ index < count, number = base + index ∧ ids[labels.length + index]? = some id := by
  by_cases last : group = next
  · subst last
    have absent : (group, number) ∉ labels := fun member => absurd (early _ member) (lt_irrefl _)
    rw [names_append_right absent]
    constructor
    · rintro ⟨position, found, given⟩
      rw [List.getElem?_map] at found
      obtain ⟨index, ranged, same⟩ := Option.map_eq_some_iff.mp found
      obtain ⟨inside, rfl⟩ := List.getElem?_eq_some_iff.mp ranged
      rw [List.getElem_range] at same
      exact .inr ⟨rfl, position, by simpa using inside, (congrArg Prod.snd same).symm, given⟩
    · rintro (names | ⟨-, index, inside, rfl, given⟩)
      · exact absurd names.mem absent
      · exact ⟨index, by simp [inside], given⟩
  · have absent : (group, number) ∉ (List.range count).map fun index => (next, base + index) := by
      rintro member
      obtain ⟨index, -, same⟩ := List.mem_map.mp member
      exact last (congrArg Prod.fst same).symm
    rw [names_append_left absent]
    exact ⟨.inl, fun either => either.resolve_right fun new => last new.1⟩

end Names

section Windows

variable {sizes : List (ℤ × ℤ)} {factor : ℕ}

theorem windowsOf_append (sizes : List (ℤ × ℤ)) (item : ℤ × ℤ) :
    windowsOf (sizes ++ [item]) = windowsOf sizes ++ [⟨sizes.length, item.1.toNat, item.2.toNat⟩] := by
  simp [windowsOf, List.zipIdx_append]

theorem blocksOf_append (sizes : List (ℤ × ℤ)) (item : ℤ × ℤ) : blocksOf (sizes ++ [item]) =
    blocksOf sizes ++ Window.blocks ⟨sizes.length, item.1.toNat, item.2.toNat⟩ := by
  simp [blocksOf, windowsOf_append]

theorem chunksOf_append (factor : ℕ) (sizes : List (ℤ × ℤ)) (item : ℤ × ℤ) :
    chunksOf factor (sizes ++ [item]) =
      chunksOf factor sizes ++ Window.chunks factor ⟨sizes.length, item.1.toNat, item.2.toNat⟩ := by
  simp [chunksOf, windowsOf_append]

theorem group_lt_of_window {window : Window} (member : window ∈ windowsOf sizes) :
    window.group < sizes.length := by
  obtain ⟨item, indexed, rfl⟩ := List.mem_map.mp member
  exact List.snd_lt_of_mem_zipIdx indexed

theorem group_lt_of_block {label : ℕ × ℕ} (member : label ∈ blocksOf sizes) : label.1 < sizes.length := by
  obtain ⟨window, inWindows, inBlocks⟩ := List.mem_flatMap.mp member
  obtain ⟨index, -, rfl⟩ := List.mem_map.mp inBlocks
  exact group_lt_of_window inWindows

theorem group_lt_of_chunk {label : ℕ × ℕ} (member : label ∈ chunksOf factor sizes) :
    label.1 < sizes.length := by
  obtain ⟨window, inWindows, inChunks⟩ := List.mem_flatMap.mp member
  obtain ⟨index, -, rfl⟩ := List.mem_map.mp inChunks
  exact group_lt_of_window inWindows

theorem nodup_blocksOf (sizes : List (ℤ × ℤ)) : (blocksOf sizes).Nodup := by
  induction sizes using List.reverseRecOn with
  | nil => exact List.nodup_nil
  | append_singleton before item ih =>
    rw [blocksOf_append, List.nodup_append]
    refine ⟨ih, ?_, ?_⟩
    · apply List.nodup_range.map
      intro left right same
      exact Nat.add_left_cancel (congrArg Prod.snd same)
    · intro left old right new same
      obtain ⟨index, -, rfl⟩ := List.mem_map.mp new
      have early := group_lt_of_block old
      rw [same] at early
      exact absurd early (lt_irrefl _)

/-- The count of the source is the number of chunks. -/
theorem chunkCount_eq {window : Window} (positive : 0 < factor) (nonempty : window.size ≠ 0) :
    (window.size + window.logical % factor + factor - 1) / factor = window.chunkCount factor := by
  have split : window.logical + window.size - 1 =
      window.logical % factor + window.size - 1 + factor * (window.logical / factor) := by
    have := Nat.mod_add_div window.logical factor
    omega
  have shifted : window.size + window.logical % factor + factor - 1 =
      window.logical % factor + window.size - 1 + factor := by omega
  rw [Window.chunkCount, if_neg nonempty, shifted, Nat.add_div_right _ positive, split,
    Nat.add_mul_div_left _ _ positive, Nat.add_right_comm, Nat.add_sub_cancel]

/-- Dividing within the chunk that a window begins in. -/
theorem add_div_chunk (positive : 0 < factor) (logical index : ℕ) :
    (logical + index) / factor = logical / factor + (logical % factor + index) / factor := by
  have split : logical + index = logical % factor + index + factor * (logical / factor) := by
    have := Nat.mod_add_div logical factor
    omega
  rw [split, Nat.add_mul_div_left _ _ positive, Nat.add_comm]

theorem chunk_lt_count {window : Window} (positive : 0 < factor) {index : ℕ} (inside : index < window.size) :
    (window.logical % factor + index) / factor < window.chunkCount factor := by
  rw [← chunkCount_eq positive (by omega), Nat.div_lt_iff_lt_mul positive]
  have whole := Nat.lt_div_mul_add (a := window.size + window.logical % factor + factor - 1) positive
  omega

/-- The chunk of each logical block of a transfer is one of its chunks. -/
theorem chunk_mem_of_block (positive : 0 < factor) {group logical : ℕ}
    (member : (group, logical) ∈ blocksOf sizes) : (group, logical / factor) ∈ chunksOf factor sizes := by
  obtain ⟨window, inWindows, inBlocks⟩ := List.mem_flatMap.mp member
  obtain ⟨index, inside, same⟩ := List.mem_map.mp inBlocks
  obtain ⟨rfl, rfl⟩ := Prod.mk.inj same
  refine List.mem_flatMap.mpr ⟨window, inWindows,
    List.mem_map.mpr ⟨(window.logical % factor + index) / factor, ?_, ?_⟩⟩
  · exact List.mem_range.mpr (chunk_lt_count positive (List.mem_range.mp inside))
  · rw [add_div_chunk positive window.logical index]

end Windows

section Plan

variable {gpuSpec : GPULoadStoreSpec} {cpuSpec : CPULoadStoreSpec} {factor : ℕ}

/-- The entries that the loops over references and blocks of one group add. -/
theorem mem_groupPlan {state : PlanState} {skip size : ℕ} {group : List CanonicalKVCacheRef}
    {before after : List PlanEntry}
    (done : loop (fun plan ref => loop (addPlanEntry gpuSpec cpuSpec factor state skip ref) plan
      (List.range size)) before group = .ok after) (entry : PlanEntry) :
    entry ∈ after ↔ entry ∈ before ∨ ∃ ref ∈ group, ∃ index < size, ∃ deviceBlock cpuBlock,
      gpuSpec.blockIds[state.gpuOffset + index]? = some deviceBlock ∧
      cpuSpec.blockIds[state.cpuOffset + (skip + index) / factor]? = some cpuBlock ∧
      entry = ⟨ref.tensorIdx, deviceBlock, cpuBlock, (skip + index) % factor, ref.pageSizeBytes⟩ := by
  let adds (ref : CanonicalKVCacheRef) (index : ℕ) : Prop := ∃ deviceBlock cpuBlock,
    gpuSpec.blockIds[state.gpuOffset + index]? = some deviceBlock ∧
    cpuSpec.blockIds[state.cpuOffset + (skip + index) / factor]? = some cpuBlock ∧
    entry = ⟨ref.tensorIdx, deviceBlock, cpuBlock, (skip + index) % factor, ref.pageSizeBytes⟩
  refine loop_invariant done
    (fun visited plan => entry ∈ plan ↔ entry ∈ before ∨ ∃ ref ∈ visited, ∃ index < size, adds ref index)
    (by simp) ?_
  intro visited plan ref next _ holds inner
  have added : entry ∈ next ↔ entry ∈ plan ∨ ∃ index ∈ List.range size, adds ref index := by
    refine loop_invariant inner
      (fun indices grown => entry ∈ grown ↔ entry ∈ plan ∨ ∃ index ∈ indices, adds ref index) (by simp) ?_
    intro indices grown index last _ kept stepped
    simp only [addPlanEntry, bind_eq_ok_iff, getIndex_eq_ok_iff, pure, Except.pure, Except.ok.injEq] at stepped
    obtain ⟨deviceBlock, hasDevice, cpuBlock, hasCpu, rfl⟩ := stepped
    have only : adds ref index ↔ entry =
        ⟨ref.tensorIdx, deviceBlock, cpuBlock, (skip + index) % factor, ref.pageSizeBytes⟩ := by
      constructor
      · rintro ⟨otherDevice, otherCpu, device, cpu, rfl⟩
        rw [Option.some.inj (device.symm.trans hasDevice), Option.some.inj (cpu.symm.trans hasCpu)]
      · exact fun same => ⟨_, _, hasDevice, hasCpu, same⟩
    simp only [List.mem_append, List.mem_singleton, kept, or_and_right, exists_or, exists_eq_left, only, or_assoc]
  simp only [added, holds, List.mem_append, List.mem_singleton, List.mem_range, or_and_right, exists_or,
    exists_eq_left, or_assoc]

/-- The entry of a plan for a logical block of a group, given its two blocks. -/
def planEntry (factor : ℕ) (ref : CanonicalKVCacheRef) (logical : ℕ) (deviceBlock cpuBlock : ℤ) : PlanEntry :=
  ⟨ref.tensorIdx, deviceBlock, cpuBlock, logical % factor, ref.pageSizeBytes⟩

/-- A plan holds the entry of each reference and logical block of the groups listed, and no other. -/
def Plans (gpuSpec : GPULoadStoreSpec) (cpuSpec : CPULoadStoreSpec) (factor : ℕ) (sizes : List (ℤ × ℤ))
    (refs : List (List CanonicalKVCacheRef)) (plan : List PlanEntry) : Prop :=
  ∀ entry, entry ∈ plan ↔ ∃ group groupRefs ref logical deviceBlock cpuBlock,
    refs[group]? = some groupRefs ∧ ref ∈ groupRefs ∧
    Names (blocksOf sizes) gpuSpec.blockIds (group, logical) deviceBlock ∧
    Names (chunksOf factor sizes) cpuSpec.blockIds (group, logical / factor) cpuBlock ∧
    entry = planEntry factor ref logical deviceBlock cpuBlock

abbrev PlanItem := ℤ × ℤ × List CanonicalKVCacheRef

def sizesOf (items : List PlanItem) : List (ℤ × ℤ) := items.map fun item => (item.1, item.2.1)

def refsOf (items : List PlanItem) : List (List CanonicalKVCacheRef) := items.map fun item => item.2.2

/-- What the loop over the groups keeps. -/
structure Planned (gpuSpec : GPULoadStoreSpec) (cpuSpec : CPULoadStoreSpec) (factor : ℕ)
    (visited : List PlanItem) (state : PlanState) : Prop where
  gpuOffset : state.gpuOffset = (blocksOf (sizesOf visited)).length
  cpuOffset : state.cpuOffset = (chunksOf factor (sizesOf visited)).length
  plans : Plans gpuSpec cpuSpec factor (sizesOf visited) (refsOf visited) state.plan

theorem sizesOf_append (visited : List PlanItem) (item : PlanItem) :
    sizesOf (visited ++ [item]) = sizesOf visited ++ [(item.1, item.2.1)] := by simp [sizesOf]

theorem length_sizesOf (visited : List PlanItem) : (sizesOf visited).length = visited.length := by
  simp [sizesOf]

/-- A group without blocks changes neither list. -/
theorem Plans.empty {visited : List PlanItem} {plan : List PlanEntry} {item : PlanItem}
    (plans : Plans gpuSpec cpuSpec factor (sizesOf visited) (refsOf visited) plan) (empty : item.1.toNat = 0) :
    Plans gpuSpec cpuSpec factor (sizesOf (visited ++ [item])) (refsOf (visited ++ [item])) plan := by
  have sameBlocks : blocksOf (sizesOf (visited ++ [item])) = blocksOf (sizesOf visited) := by
    rw [sizesOf_append, blocksOf_append, Window.blocks, empty]
    simp
  have sameChunks : chunksOf factor (sizesOf (visited ++ [item])) = chunksOf factor (sizesOf visited) := by
    rw [sizesOf_append, chunksOf_append, Window.chunks, Window.chunkCount, if_pos empty]
    simp
  intro entry
  rw [plans entry, sameBlocks, sameChunks]
  have sameRefs : ∀ {group logical deviceBlock},
      Names (blocksOf (sizesOf visited)) gpuSpec.blockIds (group, logical) deviceBlock →
      (refsOf (visited ++ [item]))[group]? = (refsOf visited)[group]? := by
    intro group logical deviceBlock names
    have early := group_lt_of_block names.mem
    rw [length_sizesOf] at early
    rw [refsOf, List.map_append, List.getElem?_append_left (by simpa using early), refsOf]
  constructor
  · rintro ⟨group, groupRefs, ref, logical, deviceBlock, cpuBlock, found, member, device, cpu, same⟩
    exact ⟨_, _, _, _, _, _, (sameRefs device).trans found, member, device, cpu, same⟩
  · rintro ⟨group, groupRefs, ref, logical, deviceBlock, cpuBlock, found, member, device, cpu, same⟩
    exact ⟨_, _, _, _, _, _, (sameRefs device).symm.trans found, member, device, cpu, same⟩

/-- The entries of a further group extend the plan of the groups before it. -/
theorem Plans.extend {visited : List PlanItem} {state : PlanState} {item : PlanItem} {plan : List PlanEntry}
    (positive : 0 < factor) (planned : Planned gpuSpec cpuSpec factor visited state)
    (grown : ∀ entry, entry ∈ plan ↔ entry ∈ state.plan ∨
      ∃ ref ∈ item.2.2, ∃ index < item.1.toNat, ∃ deviceBlock cpuBlock,
        gpuSpec.blockIds[state.gpuOffset + index]? = some deviceBlock ∧
        cpuSpec.blockIds[state.cpuOffset + (item.2.1.toNat % factor + index) / factor]? = some cpuBlock ∧
        entry = ⟨ref.tensorIdx, deviceBlock, cpuBlock, (item.2.1.toNat % factor + index) % factor,
          ref.pageSizeBytes⟩) :
    Plans gpuSpec cpuSpec factor (sizesOf (visited ++ [item])) (refsOf (visited ++ [item])) plan := by
  have deviceNames : ∀ {group logical id},
      Names (blocksOf (sizesOf (visited ++ [item]))) gpuSpec.blockIds (group, logical) id ↔
        Names (blocksOf (sizesOf visited)) gpuSpec.blockIds (group, logical) id ∨ group = visited.length ∧
          ∃ index < item.1.toNat, logical = item.2.1.toNat + index ∧
            gpuSpec.blockIds[state.gpuOffset + index]? = some id := by
    intro group logical id
    rw [sizesOf_append, blocksOf_append, Window.blocks, names_append_range fun _ => group_lt_of_block,
      length_sizesOf, planned.gpuOffset]
  have cpuNames : ∀ {group chunk id},
      Names (chunksOf factor (sizesOf (visited ++ [item]))) cpuSpec.blockIds (group, chunk) id ↔
        Names (chunksOf factor (sizesOf visited)) cpuSpec.blockIds (group, chunk) id ∨ group = visited.length ∧
          ∃ index < Window.chunkCount ⟨visited.length, item.1.toNat, item.2.1.toNat⟩ factor,
            chunk = item.2.1.toNat / factor + index ∧
              cpuSpec.blockIds[state.cpuOffset + index]? = some id := by
    intro group chunk id
    rw [sizesOf_append, chunksOf_append, Window.chunks, names_append_range fun _ => group_lt_of_chunk,
      length_sizesOf, planned.cpuOffset]
  have oldRefs : ∀ {group : ℕ}, group < visited.length →
      (refsOf (visited ++ [item]))[group]? = (refsOf visited)[group]? := by
    intro group early
    rw [refsOf, List.map_append, List.getElem?_append_left (by simpa using early), refsOf]
  have newRefs : (refsOf (visited ++ [item]))[visited.length]? = some item.2.2 := by simp [refsOf]
  intro entry
  rw [grown entry, planned.plans entry]
  constructor
  · rintro (⟨group, groupRefs, ref, logical, deviceBlock, cpuBlock, found, member, device, cpu, same⟩ |
      ⟨ref, member, index, inside, deviceBlock, cpuBlock, device, cpu, same⟩)
    · have early := group_lt_of_block device.mem
      rw [length_sizesOf] at early
      exact ⟨_, _, _, _, _, _, (oldRefs early).trans found, member, deviceNames.mpr (.inl device),
        cpuNames.mpr (.inl cpu), same⟩
    · refine ⟨visited.length, item.2.2, ref, item.2.1.toNat + index, deviceBlock, cpuBlock, newRefs, member,
        deviceNames.mpr (.inr ⟨rfl, index, inside, rfl, device⟩), cpuNames.mpr (.inr ⟨rfl, _, ?_, ?_, cpu⟩), ?_⟩
      · have bounded : index < (Window.mk visited.length item.1.toNat item.2.1.toNat).size := inside
        exact chunk_lt_count positive bounded
      · exact add_div_chunk positive _ _
      · rw [same, planEntry, Nat.mod_add_mod]
  · rintro ⟨group, groupRefs, ref, logical, deviceBlock, cpuBlock, found, member, device, cpu, same⟩
    rcases deviceNames.mp device with old | ⟨rfl, index, inside, rfl, given⟩
    · have early := group_lt_of_block old.mem
      rw [length_sizesOf] at early
      have oldCpu := (cpuNames.mp cpu).resolve_right fun new => absurd new.1 early.ne
      exact .inl ⟨_, _, _, _, _, _, (oldRefs early).symm.trans found, member, old, oldCpu, same⟩
    · rcases cpuNames.mp cpu with oldCpu | ⟨-, chunk, -, numbered, givenCpu⟩
      · have early := group_lt_of_chunk oldCpu.mem
        rw [length_sizesOf] at early
        exact absurd early (lt_irrefl _)
      · rw [add_div_chunk positive, Nat.add_left_cancel_iff] at numbered
        have refs : groupRefs = item.2.2 := Option.some.inj (found.symm.trans newRefs)
        refine .inr ⟨ref, refs ▸ member, index, inside, deviceBlock, cpuBlock, given, numbered ▸ givenCpu, ?_⟩
        rw [same, planEntry, Nat.mod_add_mod]

theorem Planned.addPlanGroup {visited : List PlanItem} {state next : PlanState} {item : PlanItem}
    (positive : 0 < factor) (planned : Planned gpuSpec cpuSpec factor visited state)
    (added : addPlanGroup gpuSpec cpuSpec factor state item = .ok next) :
    Planned gpuSpec cpuSpec factor (visited ++ [item]) next := by
  simp only [Model.addPlanGroup, bind_eq_ok_iff, raiseIf_eq_ok_iff, exists_const] at added
  obtain ⟨-, branch⟩ := added
  by_cases empty : item.1.toNat = 0
  · rw [if_pos empty] at branch
    cases branch
    refine ⟨?_, ?_, planned.plans.empty empty⟩
    · rw [planned.gpuOffset, sizesOf_append, blocksOf_append, Window.blocks, empty]
      simp
    · rw [planned.cpuOffset, sizesOf_append, chunksOf_append, Window.chunks, Window.chunkCount, if_pos empty]
      simp
  · rw [if_neg empty] at branch
    simp only [bind_eq_ok_iff, raiseIf_eq_ok_iff, exists_const, pure, Except.pure, Except.ok.injEq] at branch
    obtain ⟨-, plan, listed, rfl⟩ := branch
    refine ⟨?_, ?_, Plans.extend positive planned fun entry => mem_groupPlan listed entry⟩
    · rw [planned.gpuOffset, sizesOf_append, blocksOf_append, Window.blocks]
      simp
    · rw [planned.cpuOffset, sizesOf_append, chunksOf_append, Window.chunks, length_sizesOf,
        ← chunkCount_eq positive empty]
      simp

end Plan

/-- A `zip` that does not raise pairs lists of one length. -/
theorem zipStrict_eq {α β γ : Type} {xs : List α} {ys : List β} {zs : List γ}
    (ended : (zipStrict xs ys zs).2 = .ok ()) :
    (zipStrict xs ys zs).1 = xs.zip (ys.zip zs) ∧ xs.length = ys.length ∧ ys.length = zs.length := by
  induction xs generalizing ys zs with
  | nil => cases ys <;> cases zs <;> simp [zipStrict] at ended ⊢
  | cons x xs ih =>
    match ys, zs with
    | [], _ => simp [zipStrict] at ended
    | _ :: _, [] => simp [zipStrict] at ended
    | y :: ys, z :: zs =>
      obtain ⟨zipped, sizes, refs⟩ := ih ended
      refine ⟨?_, congrArg Nat.succ sizes, congrArg Nat.succ refs⟩
      rw [zipStrict, zipped]
      rfl

/-- **The chunk mapping.** An accepted transfer names every block it is given, and its plan pairs the
device block of each logical block with the CPU block of its chunk. -/
theorem copyPlan_spec {gpuSpec : GPULoadStoreSpec} {cpuSpec : CPULoadStoreSpec}
    {refs : List (List CanonicalKVCacheRef)} {factor : ℤ} {plan : List PlanEntry}
    (planned : copyPlan gpuSpec cpuSpec refs factor = .ok plan) :
    0 < factor.toNat ∧ gpuSpec.blockIds.length = (logicalBlocks gpuSpec).length ∧
      cpuSpec.blockIds.length = (touchedChunks factor.toNat gpuSpec).length ∧
      Plans gpuSpec cpuSpec factor.toNat (gpuSpec.groupSizes.zip gpuSpec.blockIndices) refs plan := by
  simp only [copyPlan, bind_eq_ok_iff, raiseIf_eq_ok_iff, exists_const, pure, Except.pure,
    Except.ok.injEq] at planned
  obtain ⟨positive, done, visited, _, ended, used, rfl⟩ := planned
  have positive : 0 < factor.toNat := by omega
  obtain ⟨zipped, sizes, groups⟩ := zipStrict_eq ended
  rw [zipped] at visited
  have sameSizes : sizesOf (gpuSpec.groupSizes.zip (gpuSpec.blockIndices.zip refs)) =
      gpuSpec.groupSizes.zip gpuSpec.blockIndices := by
    have firsts : (gpuSpec.blockIndices.zip refs).map Prod.fst = gpuSpec.blockIndices :=
      List.map_fst_zip groups.le
    conv_rhs => rw [← firsts, List.zip_map_right]
    rfl
  have sameRefs : refsOf (gpuSpec.groupSizes.zip (gpuSpec.blockIndices.zip refs)) = refs := by
    have inner : (gpuSpec.blockIndices.zip refs).map Prod.snd = refs := List.map_snd_zip groups.ge
    have outer : (gpuSpec.groupSizes.zip (gpuSpec.blockIndices.zip refs)).map Prod.snd =
        gpuSpec.blockIndices.zip refs := List.map_snd_zip (by simp [sizes, groups])
    conv_rhs => rw [← inner, ← outer, List.map_map]
    rfl
  have last : Planned gpuSpec cpuSpec factor.toNat (gpuSpec.groupSizes.zip (gpuSpec.blockIndices.zip refs)) done :=
    loop_invariant visited (Planned gpuSpec cpuSpec factor.toNat)
      ⟨rfl, rfl, by simp [Plans, refsOf]⟩ fun _ _ _ _ _ holds added => holds.addPlanGroup positive added
  rw [logicalBlocks, touchedChunks, ← sameSizes, ← last.gpuOffset, ← last.cpuOffset]
  refine ⟨positive, by omega, by omega, ?_⟩
  have plans := last.plans
  rwa [sameRefs] at plans

end KVTiering.Soundness
