import KVTiering.Machine.Simulation
import KVTiering.Model.AscendStreams
import KVTiering.Soundness.AscendTransfer

/-! # Asynchronous transfers are as good as synchronous ones

While kernels run and transfers overlap with them, the memories are those of a program that runs every kernel, host
write and transfer when it is issued, up to what is still queued. Whoever issues work keeps off the blocks of the
transfers in flight; the copies of a store need no such care, as they wait for the kernels before them.
-/

namespace KVTiering.Soundness.AscendStreams

open Model Model.AscendStreams

variable {τ : Type} {queue items : List StreamItem}

/-! ### What may overtake what -/

def notWait : StreamItem → Bool
  | .waitStream => false
  | _ => true

/-- The items that may run before an item although they were issued after it. -/
def exposed : StreamItem → List StreamItem → List StreamItem
  | .kernel _, rest => (rest.takeWhile notWait).filter fun later => later.copy?.isSome
  | .copy _, rest => rest.filter StreamItem.isKernel
  | _, _ => []

/-- What overtakes an item is independent of it. -/
def Clear : List StreamItem → Prop
  | [] => True
  | item :: rest => (∀ later ∈ exposed item rest, item.action.Independent later.action) ∧ Clear rest

/-- The items behind the last `wait_stream`. -/
def unordered (queue : List StreamItem) : List StreamItem := queue.reverse.takeWhile notWait

theorem unordered_cons (item : StreamItem) (rest : List StreamItem) :
    unordered (item :: rest) = if ∀ later ∈ rest, notWait later = true then
      rest.reverse ++ [item].takeWhile notWait else unordered rest := by
  simp only [unordered, List.reverse_cons]
  split
  · next all => exact List.takeWhile_append_of_pos (by simpa using all)
  · next some =>
    rw [List.takeWhile_append, if_neg]
    intro whole
    have same := (List.takeWhile_prefix notWait).eq_of_length whole
    apply some
    intro later member
    exact List.mem_takeWhile_imp (same.symm ▸ List.mem_reverse.mpr member)

theorem mem_unordered_cons {item later : StreamItem} {rest : List StreamItem} (member : later ∈ unordered rest) :
    later ∈ unordered (item :: rest) := by
  rw [unordered_cons]
  split
  · exact List.mem_append_left _ (List.mem_reverse.mpr (by
      simpa using (List.takeWhile_prefix notWait).subset member))
  · exact member

/-- Work that is issued keeps off the transfers and kernels that it may overtake, or that may overtake it. -/
structure Crosses (queue items : List StreamItem) : Prop where
  kernels : ∀ kernel, .kernel kernel ∈ unordered queue → ∀ copy, .copy copy ∈ items.takeWhile notWait →
    kernel.Independent copy.action
  copies : ∀ copy, .copy copy ∈ queue → ∀ kernel, .kernel kernel ∈ items → copy.action.Independent kernel

theorem Crosses.tail {item : StreamItem} (crosses : Crosses (item :: queue) items) : Crosses queue items :=
  ⟨fun kernel member => crosses.kernels kernel (mem_unordered_cons member),
    fun copy member => crosses.copies copy (List.mem_cons_of_mem _ member)⟩

theorem clear_append (clear : Clear queue) (more : Clear items) (crosses : Crosses queue items) :
    Clear (queue ++ items) := by
  induction queue with
  | nil => exact more
  | cons item rest ih =>
    rw [List.cons_append]
    refine ⟨fun later member => ?_, ih clear.2 crosses.tail⟩
    cases item with
    | waitStream | record _ => cases member
    | copy copy =>
      simp only [exposed, List.filter_append, List.mem_append] at member
      rcases member with old | new
      · exact clear.1 later old
      · rw [List.mem_filter] at new
        cases later with
        | kernel kernel => exact crosses.copies copy List.mem_cons_self kernel new.1
        | _ => cases new.2
    | kernel kernel =>
      simp only [exposed, List.mem_filter] at member
      obtain ⟨taken, issued⟩ := member
      by_cases whole : ∀ later ∈ rest, notWait later = true
      · rw [List.takeWhile_append_of_pos whole, List.mem_append] at taken
        rcases taken with old | new
        · apply clear.1 later
          simp only [exposed, List.mem_filter]
          rw [← List.append_nil rest, List.takeWhile_append_of_pos whole]
          exact ⟨List.mem_append_left _ old, issued⟩
        · cases later with
          | copy copy =>
            refine crosses.kernels kernel ?_ copy new
            rw [unordered_cons, if_pos whole]
            exact List.mem_append_right _ (by rw [List.takeWhile_cons_of_pos rfl]; exact List.mem_cons_self)
          | _ => cases issued
      · apply clear.1 later
        simp only [exposed, List.mem_filter]
        rw [List.takeWhile_append, if_neg] at taken
        · exact ⟨taken, issued⟩
        · intro length
          have same := (List.takeWhile_prefix notWait).eq_of_length length
          exact whole fun later member => List.mem_takeWhile_imp (same.symm ▸ member)

/-- Items without kernels are run in order. -/
theorem clear_of_transfers (transfers : ∀ item ∈ queue, item.isKernel = false) : Clear queue := by
  induction queue with
  | nil => trivial
  | cons item rest ih =>
    refine ⟨fun later member => ?_, ih fun item member => transfers item (List.mem_cons_of_mem _ member)⟩
    cases item with
    | kernel kernel => cases transfers _ List.mem_cons_self
    | copy copy =>
      obtain ⟨inRest, kernel⟩ := List.mem_filter.mp member
      rw [transfers later (List.mem_cons_of_mem _ inRest)] at kernel
      cases kernel
    | _ => cases member

/-! ### What may run next -/

/-- What may run next is independent of what was issued before it, and nothing else changes. -/
theorem clear_remove {before rest : List StreamItem} {item : StreamItem} (clear : Clear (before ++ item :: rest))
    (waits : item ≠ .waitStream) : Clear (before ++ rest) := by
  induction before with
  | nil => exact clear.2
  | cons first between ih =>
    rw [List.cons_append] at clear ⊢
    refine ⟨fun later member => clear.1 later ?_, ih clear.2⟩
    have passes : notWait item = true := by
      cases item with
      | waitStream => exact absurd rfl waits
      | _ => rfl
    cases first with
    | kernel kernel =>
      simp only [exposed, List.mem_filter] at member ⊢
      refine ⟨?_, member.2⟩
      have taken := member.1
      rw [List.takeWhile_append, List.takeWhile_cons, if_pos passes]
      rw [List.takeWhile_append] at taken
      split at taken
      · next whole =>
        rw [if_pos whole]
        rcases List.mem_append.mp taken with old | new
        · exact List.mem_append_left _ old
        · exact List.mem_append_right _ (List.mem_cons_of_mem _ new)
      · next partly =>
        rw [if_neg partly]
        exact taken
    | copy copy =>
      simp only [exposed, List.mem_filter, List.mem_append, List.mem_cons] at member ⊢
      exact ⟨member.1.imp_right .inr, member.2⟩
    | _ => cases member

/-- The next kernel overtakes transfers that it is independent of. -/
theorem independent_of_runKernel {transfers rest : List StreamItem} {kernel : Action MemoryAddress UInt8}
    (clear : Clear (transfers ++ .kernel kernel :: rest)) (first : ∀ item ∈ transfers, item.isKernel = false)
    {other : StreamItem} (member : other ∈ transfers) : kernel.Independent other.action := by
  induction transfers with
  | nil => cases member
  | cons item between ih =>
    rw [List.cons_append] at clear
    rcases List.mem_cons.mp member with rfl | inside
    · cases other with
      | kernel kernel => cases first _ List.mem_cons_self
      | copy copy =>
        have exposed : StreamItem.kernel kernel ∈ exposed (.copy copy) (between ++ .kernel kernel :: rest) := by
          simp [AscendStreams.exposed, StreamItem.isKernel]
        exact (clear.1 _ exposed).symm
      | _ => exact Action.independent_skip kernel
    · exact ih clear.2 (fun item member => first item (List.mem_cons_of_mem _ member)) inside

/-- The next copy overtakes kernels that it is independent of. -/
theorem independent_of_runCopy {kernels rest : List StreamItem} {copy : StreamCopy}
    (clear : Clear (kernels ++ .copy copy :: rest)) (first : ∀ item ∈ kernels, item.isKernel = true)
    {other : StreamItem} (member : other ∈ kernels) : copy.action.Independent other.action := by
  induction kernels with
  | nil => cases member
  | cons item between ih =>
    rw [List.cons_append] at clear
    have inner : ∀ item ∈ between, item.isKernel = true := fun item member =>
      first item (List.mem_cons_of_mem _ member)
    rcases List.mem_cons.mp member with rfl | inside
    · cases other with
      | kernel kernel =>
        have passes : ∀ item ∈ between, notWait item = true := by
          intro item member
          have kind := inner item member
          cases item <;> first | rfl | cases kind
        have exposed : StreamItem.copy copy ∈ exposed (.kernel kernel) (between ++ .copy copy :: rest) := by
          rw [AscendStreams.exposed, List.takeWhile_append_of_pos passes, List.takeWhile_cons_of_pos rfl]
          simp [StreamItem.copy?]
        exact (clear.1 _ exposed).symm
      | _ => cases first _ List.mem_cons_self
    · exact ih clear.2 inner inside

/-! ### What the calls of the worker issue -/

/-- A copy that has been issued can be carried out. -/
def Issuable (copy : StreamCopy) : Prop :=
  ∃ moves, copyMoves (if copy.store then copy.span.2 else copy.span.1)
    (if copy.store then copy.span.1 else copy.span.2) = .ok moves

theorem issueCopies_append (store : Bool) (stream : List StreamCopy) (spans : List (ByteSpan × ByteSpan)) :
    issueCopies store stream spans = (stream ++ (issueCopies store [] spans).1, (issueCopies store [] spans).2) := by
  induction spans generalizing stream with
  | nil => simp [issueCopies]
  | cons span rest ih =>
    simp only [issueCopies]
    split
    · simp
    · rw [ih (stream ++ _), ih ([] ++ _)]
      simp

theorem issuable_of_issued {store : Bool} {spans : List (ByteSpan × ByteSpan)} {copy : StreamCopy}
    (member : copy ∈ (issueCopies store [] spans).1) : Issuable copy := by
  induction spans with
  | nil => simp [issueCopies] at member
  | cons span rest ih =>
    simp only [issueCopies] at member
    split at member
    · simp at member
    · next moves paired =>
      rw [issueCopies_append] at member
      rcases List.mem_append.mp member with first | later
      · obtain rfl : copy = ⟨store, span⟩ := by simpa using first
        exact ⟨moves, paired⟩
      · exact ih later

section Submitted

variable (state : TransferState τ) (worker : TransferWorker) (jobId : ℤ) (gpuSpec : GPULoadStoreSpec)
  (cpuSpec : CPULoadStoreSpec) (store : Bool)

/-- What `_submit` issues and leaves behind: nothing and the state it found, or some copies without an event if one of
them raises, or a job. -/
theorem submit_cases (now : τ) :
    ((state.submit worker jobId gpuSpec cpuSpec store now).1 = state ∧
      state.submitted worker jobId gpuSpec cpuSpec store = []) ∨
    ∃ (spans : List (ByteSpan × ByteSpan)) (waits : List StreamItem),
      waits = (if store then [.waitStream] else []) ∧
      (((state.submit worker jobId gpuSpec cpuSpec store now).1 =
          { state with stream := state.stream ++ (issueCopies store [] spans).1 } ∧
        state.submitted worker jobId gpuSpec cpuSpec store =
          waits ++ (issueCopies store [] spans).1.map .copy) ∨
      ∃ entry, (state.submit worker jobId gpuSpec cpuSpec store now).1 =
          { state with
            stream := state.stream ++ (issueCopies store [] spans).1
            inflight := state.inflight.set jobId entry
            pending := insert jobId state.pending
            accepted := state.accepted ++ [jobId] } ∧
        state.submitted worker jobId gpuSpec cpuSpec store =
          waits ++ (issueCopies store [] spans).1.map .copy ++ [.record state.accepted.length]) := by
  unfold TransferState.submit TransferState.submitted
  by_cases pending : jobId ∈ state.pending
  · exact .inl ⟨by rw [if_pos pending], by rw [if_pos pending]⟩
  · rw [if_neg pending, if_neg pending]
    cases copyPlan gpuSpec cpuSpec worker.refs worker.factor with
    | error raised => exact .inl ⟨rfl, rfl⟩
    | ok plan =>
      dsimp only
      cases worker.spans plan with
      | error raised => exact .inl ⟨rfl, rfl⟩
      | ok spans =>
        refine .inr ⟨spans, _, rfl, ?_⟩
        dsimp only
        rw [issueCopies_append]
        cases (issueCopies store [] spans).2 with
        | error raised => exact .inl ⟨rfl, by simp⟩
        | ok => exact .inr ⟨_, rfl, rfl⟩

theorem submit_stream (now : τ) : (state.submit worker jobId gpuSpec cpuSpec store now).1.stream =
    state.stream ++ (state.submitted worker jobId gpuSpec cpuSpec store).filterMap StreamItem.copy? := by
  have copied : ∀ copies : List StreamCopy, (copies.map StreamItem.copy).filterMap StreamItem.copy? = copies := by
    intro copies
    simp [List.filterMap_map, Function.comp_def, StreamItem.copy?]
  obtain ⟨left, issued⟩ | ⟨spans, waits, rfl, ⟨left, issued⟩ | ⟨entry, left, issued⟩⟩ :=
    submit_cases state worker jobId gpuSpec cpuSpec store now
  · rw [left, issued, List.filterMap_nil, List.append_nil]
  · rw [left, issued]
    cases store <;> simp [List.filterMap_cons, copied, StreamItem.copy?]
  · rw [left, issued]
    cases store <;> simp [List.filterMap_cons, List.filterMap_append, copied, StreamItem.copy?]

theorem submitted_cases {item : StreamItem} (member : item ∈ state.submitted worker jobId gpuSpec cpuSpec store)
    (now : τ) : item = .waitStream ∨ (∃ copy, item = .copy copy ∧ Issuable copy) ∨
      item = .record state.accepted.length := by
  have parts : ∀ (spans : List (ByteSpan × ByteSpan)) (last : List StreamItem),
      item ∈ (if store then [StreamItem.waitStream] else []) ++ (issueCopies store [] spans).1.map .copy ++ last →
      item = .waitStream ∨ (∃ copy, item = .copy copy ∧ Issuable copy) ∨ item ∈ last := by
    intro spans last member
    rcases List.mem_append.mp member with member | member
    · rcases List.mem_append.mp member with wait | copied
      · split at wait
        · exact .inl (List.mem_singleton.mp wait)
        · cases wait
      · obtain ⟨copy, issued, rfl⟩ := List.mem_map.mp copied
        exact .inr (.inl ⟨copy, rfl, issuable_of_issued issued⟩)
    · exact .inr (.inr member)
  obtain ⟨_, issued⟩ | ⟨spans, waits, rfl, ⟨_, issued⟩ | ⟨entry, _, issued⟩⟩ :=
    submit_cases state worker jobId gpuSpec cpuSpec store now
  · rw [issued] at member
    cases member
  · rw [issued, ← List.append_nil (_ ++ _)] at member
    rcases parts spans [] member with wait | copy | nothing
    · exact .inl wait
    · exact .inr (.inl copy)
    · cases nothing
  · rw [issued] at member
    rcases parts spans _ member with wait | copy | record
    · exact .inl wait
    · exact .inr (.inl copy)
    · exact .inr (.inr (List.mem_singleton.mp record))

theorem submitted_issuable {copy : StreamCopy}
    (member : .copy copy ∈ state.submitted worker jobId gpuSpec cpuSpec store) (now : τ) : Issuable copy := by
  rcases submitted_cases state worker jobId gpuSpec cpuSpec store member now with same | ⟨_, same, issuable⟩ | same
  · cases same
  · cases same
    exact issuable
  · cases same

theorem submitted_not_kernel {kernel : Action MemoryAddress UInt8}
    (member : .kernel kernel ∈ state.submitted worker jobId gpuSpec cpuSpec store) (now : τ) : False := by
  rcases submitted_cases state worker jobId gpuSpec cpuSpec store member now with same | ⟨_, same, _⟩ | same <;>
    cases same

/-- The copies of a store overtake nothing. -/
theorem submitted_store_waits (now : τ) :
    (state.submitted worker jobId gpuSpec cpuSpec true).takeWhile notWait = [] := by
  obtain ⟨_, issued⟩ | ⟨spans, waits, rfl, ⟨_, issued⟩ | ⟨entry, _, issued⟩⟩ :=
    submit_cases state worker jobId gpuSpec cpuSpec true now <;> rw [issued] <;> rfl

theorem submit_frame (now : τ) :
    let submitted := (state.submit worker jobId gpuSpec cpuSpec store now).1
    submitted.memories = state.memories ∧ submitted.completed = state.completed ∧
      submitted.returned = state.returned := by
  obtain ⟨left, _⟩ | ⟨spans, waits, rfl, ⟨left, _⟩ | ⟨entry, left, _⟩⟩ :=
    submit_cases state worker jobId gpuSpec cpuSpec store now <;> rw [left] <;> exact ⟨rfl, rfl, rfl⟩

end Submitted

section Polling

variable [Sub τ]

/-- What polling leaves alone, and what it takes a result for. -/
theorem finish_frame (query : ℕ → Option Bool) (now : ℕ → τ) (jobIds : List ℤ)
    (done : List (TransferResult τ) × TransferState τ) :
    let polled := jobIds.foldl (TransferState.poll query now) done
    polled.2.memories = done.2.memories ∧ polled.2.stream = done.2.stream ∧
      polled.2.completed = done.2.completed ∧ polled.2.returned = done.2.returned ∧
      ∀ result ∈ polled.1, result ∈ done.1 ∨ (result.success = true → query result.event = some true) := by
  induction jobIds generalizing done with
  | nil => exact ⟨rfl, rfl, rfl, rfl, fun _ => .inl⟩
  | cons jobId rest ih =>
    have one : (TransferState.poll query now done jobId).2.memories = done.2.memories ∧
        (TransferState.poll query now done jobId).2.stream = done.2.stream ∧
        (TransferState.poll query now done jobId).2.completed = done.2.completed ∧
        (TransferState.poll query now done jobId).2.returned = done.2.returned ∧
        ∀ result ∈ (TransferState.poll query now done jobId).1,
          result ∈ done.1 ∨ (result.success = true → query result.event = some true) := by
      unfold TransferState.poll
      split
      · exact ⟨rfl, rfl, rfl, rfl, fun _ => .inl⟩
      · next entry _ =>
        split
        · exact ⟨rfl, rfl, rfl, rfl, fun _ => .inl⟩
        · next complete =>
          refine ⟨rfl, rfl, rfl, rfl, fun result member => ?_⟩
          rcases List.mem_append.mp member with old | new
          · exact .inl old
          · obtain rfl := List.mem_singleton.mp new
            right
            intro success
            simp only [TransferState.finalize] at success ⊢
            cases found : query entry.event with
            | none => simp [found] at success
            | some reported =>
              cases reported with
              | false => exact absurd found complete
              | true => rfl
    obtain ⟨memories, stream, completed, returned, results⟩ := ih (TransferState.poll query now done jobId)
    refine ⟨memories.trans one.1, stream.trans one.2.1, completed.trans one.2.2.1, returned.trans one.2.2.2.1,
      fun result member => ?_⟩
    rcases results result member with earlier | complete
    · exact one.2.2.2.2 result earlier
    · exact .inr complete

theorem wait_frame (synchronize : ℕ → Bool) (now : ℕ → τ) (jobIds : List ℤ) (state : TransferState τ) :
    let waited := state.wait jobIds synchronize now
    waited.memories = state.memories ∧ waited.stream = state.stream ∧ waited.returned = state.returned ∧
      ∀ result ∈ waited.completed,
        result ∈ state.completed ∨ (result.success = true → synchronize result.event = true) := by
  induction jobIds generalizing state with
  | nil => exact ⟨rfl, rfl, rfl, fun _ => .inl⟩
  | cons jobId rest ih =>
    have one : (TransferState.waitFor synchronize now state jobId).memories = state.memories ∧
        (TransferState.waitFor synchronize now state jobId).stream = state.stream ∧
        (TransferState.waitFor synchronize now state jobId).returned = state.returned ∧
        ∀ result ∈ (TransferState.waitFor synchronize now state jobId).completed,
          result ∈ state.completed ∨ (result.success = true → synchronize result.event = true) := by
      unfold TransferState.waitFor
      split
      · exact ⟨rfl, rfl, rfl, fun _ => .inl⟩
      · next entry _ =>
        refine ⟨rfl, rfl, rfl, fun result member => ?_⟩
        rcases List.mem_append.mp member with old | new
        · exact .inl old
        · obtain rfl := List.mem_singleton.mp new
          exact .inr id
    obtain ⟨memories, stream, returned, results⟩ := ih (TransferState.waitFor synchronize now state jobId)
    refine ⟨memories.trans one.1, stream.trans one.2.1, returned.trans one.2.2.1, fun result member => ?_⟩
    rcases results result member with earlier | complete
    · exact one.2.2.2 result earlier
    · exact .inr complete

end Polling

/-! ### Runs -/

theorem streamed_of_issuable {state : TransferState τ} {copy : StreamCopy} {rest : List StreamCopy}
    (stream : state.stream = copy :: rest) (issuable : Issuable copy) :
    state.streamed = { apply state copy.action with stream := rest } := by
  obtain ⟨store, span⟩ := copy
  obtain ⟨moves, paired⟩ := issuable
  have listed : StreamCopy.moves ⟨store, span⟩ = moves := by
    rw [StreamCopy.moves, paired]
    rfl
  simp only [TransferState.streamed, stream, copySpan]
  cases store with
  | true =>
    simp only [if_true] at paired
    rw [if_pos rfl, paired]
    simp only [apply, Memories.of, StreamCopy.action, listed]
    rfl
  | false =>
    simp only [Bool.false_eq_true, if_false] at paired
    rw [if_neg (by decide), paired]
    simp only [apply, Memories.of, StreamCopy.action, listed]
    rfl

/-- The memories are those of a program that has run up to `memory`, but for what is queued. -/
structure InOrder (d : AscendStreams τ) (memory : MemoryAddress → UInt8) : Prop where
  clear : Clear d.queue
  memory : Action.runAll (d.queue.map StreamItem.action) d.worker.memories.at = memory
  stream : d.worker.stream = d.queue.filterMap StreamItem.copy?
  issuable : ∀ copy, .copy copy ∈ d.queue → Issuable copy

variable [Sub τ] {worker : TransferWorker} {d next : AscendStreams τ} {memory : MemoryAddress → UInt8}

/-- Whoever issues work keeps off the blocks of the transfers in flight: a kernel off the blocks of transfers, a load
off the blocks of the kernels that it may overtake, and the host off all blocks in use. -/
def Pinned (worker : TransferWorker) (d : AscendStreams τ) : AscendEvent τ → Prop
  | .launch kernel => ∀ copy, .copy copy ∈ d.queue → copy.action.Independent kernel
  | .hostWrite write => ∀ item ∈ d.queue, write.Independent item.action
  | .call (.submitLoad jobId srcSpec dstSpec _) => ∀ kernel, .kernel kernel ∈ unordered d.queue →
      ∀ copy, .copy copy ∈ d.worker.submitted worker jobId dstSpec srcSpec false → kernel.Independent copy.action
  | _ => True

/-- An event is reported complete only when the stream has passed it. -/
def Truthful (d : AscendStreams τ) : AscendEvent τ → Prop
  | .call (.getFinished query _) => ∀ event, query event = some true → .record event ∉ d.queue
  | .call (.wait _ synchronize _) => ∀ event, synchronize event = true → .record event ∉ d.queue
  | _ => True

/-- The steps of a device that is used as the framework promises. -/
def Promised (worker : TransferWorker) (d : AscendStreams τ) (event : AscendEvent τ) (next : AscendStreams τ) : Prop :=
  Pinned worker d event ∧ Truthful d event ∧ d.step worker event = some next

/-- A program that runs each item when it is issued. -/
def Sequential (memory : MemoryAddress → UInt8) (item : StreamItem) (next : MemoryAddress → UInt8) : Prop :=
  next = item.action.run memory

theorem run_sequential (items : List StreamItem) (memory : MemoryAddress → UInt8) :
    Run Sequential memory items (Action.runAll (items.map StreamItem.action) memory) := by
  induction items using List.reverseRecOn with
  | nil => exact .nil
  | append_singleton before item ih =>
    rw [List.map_append, Action.runAll_append]
    exact .snoc ih rfl

theorem runAll_of_sequential {items : List StreamItem} {last : MemoryAddress → UInt8}
    (run : Run Sequential memory items last) : last = Action.runAll (items.map StreamItem.action) memory := by
  induction run with
  | nil => rfl
  | snoc before moved ih =>
    rw [List.map_append, Action.runAll_append, ← ih]
    exact moved

/-- A call of the worker leaves the memories alone and issues what it adds to its stream. -/
theorem call_frame (state : TransferState τ) (queue : List StreamItem) {call : TransferCall τ}
    (made : call ≠ .streamed) : (state.call worker call).memories = state.memories ∧
      (state.call worker call).stream =
        state.stream ++ (issues worker ⟨state, queue⟩ (.call call)).filterMap StreamItem.copy? := by
  cases call with
  | submitStore jobId srcSpec dstSpec now =>
    exact ⟨(submit_frame state worker jobId srcSpec dstSpec true now).1,
      submit_stream state worker jobId srcSpec dstSpec true now⟩
  | submitLoad jobId srcSpec dstSpec now =>
    exact ⟨(submit_frame state worker jobId dstSpec srcSpec false now).1,
      submit_stream state worker jobId dstSpec srcSpec false now⟩
  | getFinished query now =>
    obtain ⟨memories, stream, _⟩ := finish_frame query now state.inflight.keys ([], state)
    exact ⟨memories, by simpa [issues, TransferState.call, TransferState.getFinished] using stream⟩
  | wait jobIds synchronize now =>
    obtain ⟨memories, stream, _⟩ := wait_frame synchronize now jobIds state
    exact ⟨memories, by simpa [issues, TransferState.call] using stream⟩
  | streamed => exact absurd rfl made

omit [Sub τ] in
/-- Issued work is run in its order, behind what is queued. -/
theorem InOrder.issue (inOrder : InOrder d memory) {state : TransferState τ} {items : List StreamItem}
    (memories : state.memories = d.worker.memories)
    (stream : state.stream = d.worker.stream ++ items.filterMap StreamItem.copy?) (clear : Clear items)
    (crosses : Crosses d.queue items) (issuable : ∀ copy, .copy copy ∈ items → Issuable copy) :
    InOrder ⟨state, d.queue ++ items⟩ (Action.runAll (items.map StreamItem.action) memory) := by
  refine ⟨clear_append inOrder.clear clear crosses, ?_, ?_, fun copy member => ?_⟩
  · rw [List.map_append, Action.runAll_append, memories, inOrder.memory]
  · rw [stream, inOrder.stream, List.filterMap_append]
  · rcases List.mem_append.mp member with old | new
    · exact inOrder.issuable copy old
    · exact issuable copy new

omit [Sub τ] in
/-- The next item runs, with the effect it would have had in its place in the order. -/
theorem InOrder.advance (inOrder : InOrder d memory) {before rest : List StreamItem} {item : StreamItem}
    (queue : d.queue = before ++ item :: rest) (waits : item ≠ .waitStream)
    (independent : ∀ other ∈ before, item.action.Independent other.action) {state : TransferState τ}
    (memories : state.memories.at = item.action.run d.worker.memories.at)
    (stream : state.stream = (before ++ rest).filterMap StreamItem.copy?) : InOrder ⟨state, before ++ rest⟩ memory := by
  refine ⟨clear_remove (queue ▸ inOrder.clear) waits, ?_, stream, fun copy member => inOrder.issuable copy ?_⟩
  · rw [← inOrder.memory, queue, memories, List.map_append, List.map_append, List.map_cons]
    refine (Action.runAll_overtake _ (fun other member => ?_) _).symm
    obtain ⟨item, inside, rfl⟩ := List.mem_map.mp member
    exact independent item inside
  · rw [queue]
    rcases List.mem_append.mp member with old | new
    · exact List.mem_append_left _ old
    · exact List.mem_append_right _ (List.mem_cons_of_mem _ new)

theorem answered_promised {event : AscendEvent τ} (inOrder : InOrder d memory)
    (promised : Promised worker d event next) :
    ∃ memory', Run Sequential memory (issues worker d event) memory' ∧ InOrder next memory' := by
  obtain ⟨pinned, _, stepped⟩ := promised
  cases moves_of_step stepped with
  | @call call made =>
    refine ⟨_, run_sequential _ memory, ?_⟩
    obtain ⟨memories, (stream : (d.worker.call worker call).stream = _)⟩ := call_frame d.worker d.queue made
    have clear : ∀ jobId gpuSpec cpuSpec store (now : τ),
        Clear (d.worker.submitted worker jobId gpuSpec cpuSpec store) := by
      intro jobId gpuSpec cpuSpec store now
      apply clear_of_transfers
      intro item member
      cases item with
      | kernel kernel => exact (submitted_not_kernel _ _ _ _ _ _ member now).elim
      | _ => rfl
    cases call with
    | submitStore jobId srcSpec dstSpec now =>
      refine inOrder.issue memories stream (clear jobId srcSpec dstSpec true now)
        ⟨fun kernel _ copy member => ?_, fun copy _ kernel member => ?_⟩ fun copy member => ?_
      · simp only [issues, submitted_store_waits _ _ _ _ _ now] at member
        cases member
      · exact (submitted_not_kernel _ _ _ _ _ _ member now).elim
      · exact submitted_issuable _ _ _ _ _ _ member now
    | submitLoad jobId srcSpec dstSpec now =>
      refine inOrder.issue memories stream (clear jobId dstSpec srcSpec false now)
        ⟨fun kernel queued copy member => ?_, fun copy _ kernel member => ?_⟩ fun copy member => ?_
      · exact pinned kernel queued copy ((List.takeWhile_prefix notWait).subset member)
      · exact (submitted_not_kernel _ _ _ _ _ _ member now).elim
      · exact submitted_issuable _ _ _ _ _ _ member now
    | getFinished query now =>
      exact inOrder.issue memories stream trivial ⟨fun _ _ _ => by simp [issues], fun _ _ _ => by simp [issues]⟩
        (by simp [issues])
    | wait jobIds synchronize now =>
      exact inOrder.issue memories stream trivial ⟨fun _ _ _ => by simp [issues], fun _ _ _ => by simp [issues]⟩
        (by simp [issues])
    | streamed => exact absurd rfl made
  | @launch kernel =>
    refine ⟨_, run_sequential _ memory, inOrder.issue rfl (by simp [StreamItem.copy?]) ⟨by simp [exposed], trivial⟩
      ⟨fun _ _ copy member => ?_, fun copy member other issued => ?_⟩ fun copy member => ?_⟩
    · cases (List.mem_singleton.mp ((List.takeWhile_prefix notWait).subset member))
    · cases List.mem_singleton.mp issued
      exact pinned copy member
    · cases List.mem_singleton.mp member
  | @hostWrite write =>
    refine ⟨_, run_sequential _ memory, inOrder.clear, ?_, inOrder.stream, inOrder.issuable⟩
    have independent : ∀ other ∈ d.queue.map StreamItem.action, write.Independent other := by
      intro other member
      obtain ⟨item, inside, rfl⟩ := List.mem_map.mp member
      exact pinned item inside
    have overtakes := Action.runAll_overtake [] independent d.worker.memories.at
    rw [Action.runAll_append, inOrder.memory, List.append_nil] at overtakes
    simpa [issues, apply, StreamItem.action] using overtakes.symm
  | @runKernel transfers rest kernel queue first =>
    refine ⟨memory, .nil, inOrder.advance queue (by simp) (fun other member => ?_) ?_ ?_⟩
    · exact independent_of_runKernel (queue ▸ inOrder.clear) first member
    · simp [apply, StreamItem.action]
    · simpa [apply, queue, List.filterMap_append, List.filterMap_cons, StreamItem.copy?] using inOrder.stream
  | @waited rest queue =>
    refine ⟨memory, .nil, (queue ▸ inOrder.clear).2, ?_, ?_, fun copy member => inOrder.issuable copy ?_⟩
    · rw [← inOrder.memory, queue]
      rfl
    · simpa [queue, List.filterMap_cons, StreamItem.copy?] using inOrder.stream
    · rw [queue]
      exact List.mem_cons_of_mem _ member
  | @runCopy kernels rest copy queue first =>
    have stream := inOrder.stream
    have nothing : kernels.filterMap StreamItem.copy? = [] := by
      rw [List.filterMap_eq_nil_iff]
      intro item member
      have kind := first item member
      cases item <;> first | rfl | cases kind
    simp only [queue, List.filterMap_append, nothing, List.filterMap_cons, StreamItem.copy?, List.nil_append] at stream
    have issuable := inOrder.issuable copy (by simp [queue])
    refine ⟨memory, .nil, inOrder.advance queue (by simp) (fun other member => ?_) ?_ ?_⟩
    · exact independent_of_runCopy (queue ▸ inOrder.clear) first member
    · simp [streamed_of_issuable stream issuable, apply, StreamItem.action]
    · simp [streamed_of_issuable stream issuable, List.filterMap_append, nothing]
  | @pass kernels rest event queue first =>
    refine ⟨memory, .nil, inOrder.advance queue (by simp) (fun other _ => (Action.independent_skip _).symm) rfl ?_⟩
    simpa [queue, List.filterMap_append, List.filterMap_cons, StreamItem.copy?] using inOrder.stream

/-! ### Results -/

/-- A job reported as a success has its event behind it. -/
structure Passed (d : AscendStreams τ) : Prop where
  accounted : AscendTransfer.Accounted d.worker []
  results : ∀ result ∈ d.worker.completed ++ d.worker.returned, result.success = true →
    .record result.event ∉ d.queue

omit [Sub τ] in
/-- The event of a result is older than the next one to be recorded. -/
theorem event_lt {state : TransferState τ} (accounted : AscendTransfer.Accounted state [])
    {result : TransferResult τ} (member : result ∈ state.completed ++ state.returned) :
    result.event < state.accepted.length := by
  have listed : jobOfResult result ∈ AscendTransfer.jobs state [] := by
    apply List.mem_append_right
    apply List.mem_map_of_mem
    simpa using member
  have swapped := accounted.shared.mem_iff.mp listed
  simp only [jobOfResult, List.mem_map, Prod.exists, Prod.swap_prod_mk, Prod.mk.injEq] at swapped
  obtain ⟨jobId, event, inside, rfl, rfl⟩ := swapped
  simpa using (List.mem_zipIdx inside).2.1

omit [Sub τ] in
/-- The worker keeps its results, and nothing that it has not issued is queued. -/
theorem Passed.keep (passed : Passed d) {state : TransferState τ} {left : List StreamItem}
    (accounted : AscendTransfer.Accounted state []) (completed : state.completed = d.worker.completed)
    (returned : state.returned = d.worker.returned)
    (queued : ∀ event, .record event ∈ left → .record event ∈ d.queue ∨ event = d.worker.accepted.length) :
    Passed ⟨state, left⟩ := by
  refine ⟨accounted, fun result member success inside => ?_⟩
  rw [completed, returned] at member
  rcases queued result.event inside with old | new
  · exact passed.results result member success old
  · have older := event_lt passed.accounted member
    omega

omit [Sub τ] in
theorem accounted_apply {state : TransferState τ} (accounted : AscendTransfer.Accounted state [])
    (action : Action MemoryAddress UInt8) : AscendTransfer.Accounted (apply state action) [] :=
  ⟨accounted.pending, accounted.shared, accounted.success⟩

omit [Sub τ] in
theorem streamed_results (state : TransferState τ) :
    state.streamed.completed = state.completed ∧ state.streamed.returned = state.returned := by
  unfold TransferState.streamed
  split
  · exact ⟨rfl, rfl⟩
  · split <;> exact ⟨rfl, rfl⟩

theorem Passed.step {event : AscendEvent τ} (passed : Passed d) (truthful : Truthful d event)
    (stepped : d.step worker event = some next) : Passed next := by
  have remains : ∀ {before rest : List StreamItem} {item : StreamItem}, d.queue = before ++ item :: rest →
      ∀ event, .record event ∈ before ++ rest → .record event ∈ d.queue ∨ event = d.worker.accepted.length := by
    intro before rest item queue event member
    rw [queue]
    exact .inl (by simpa using (List.mem_append.mp member).imp_right .inr)
  cases moves_of_step stepped with
  | @call call made =>
    have accounted := passed.accounted.call worker call
    cases call with
    | submitStore jobId srcSpec dstSpec now =>
      obtain ⟨_, completed, returned⟩ := submit_frame d.worker worker jobId srcSpec dstSpec true now
      refine passed.keep accounted completed returned fun event member => ?_
      refine (List.mem_append.mp member).imp_right fun new => ?_
      rcases submitted_cases _ _ _ _ _ _ new now with same | ⟨_, same, _⟩ | same
      · cases same
      · cases same
      · exact StreamItem.record.inj same
    | submitLoad jobId srcSpec dstSpec now =>
      obtain ⟨_, completed, returned⟩ := submit_frame d.worker worker jobId dstSpec srcSpec false now
      refine passed.keep accounted completed returned fun event member => ?_
      refine (List.mem_append.mp member).imp_right fun new => ?_
      rcases submitted_cases _ _ _ _ _ _ new now with same | ⟨_, same, _⟩ | same
      · cases same
      · cases same
      · exact StreamItem.record.inj same
    | getFinished query now =>
      obtain ⟨_, _, completed, returned, results⟩ :=
        finish_frame query now d.worker.inflight.keys ([], d.worker)
      refine ⟨accounted, fun result member success => ?_⟩
      simp only [TransferState.call, TransferState.getFinished, List.nil_append, completed, returned, issues,
        List.append_nil] at member ⊢
      rcases List.mem_append.mp member with old | new
      · exact passed.results result (List.mem_append_right _ old) success
      · rcases List.mem_append.mp new with old | new
        · exact passed.results result (List.mem_append_left _ old) success
        · rcases results result new with nothing | complete
          · cases nothing
          · exact truthful _ (complete success)
    | wait jobIds synchronize now =>
      obtain ⟨_, _, returned, results⟩ := wait_frame synchronize now jobIds d.worker
      refine ⟨accounted, fun result member success => ?_⟩
      simp only [TransferState.call, returned, issues, List.append_nil] at member ⊢
      rcases List.mem_append.mp member with new | old
      · rcases results result new with old | complete
        · exact passed.results result (List.mem_append_left _ old) success
        · exact truthful _ (complete success)
      · exact passed.results result (List.mem_append_right _ old) success
    | streamed => exact absurd rfl made
  | launch => exact passed.keep passed.accounted rfl rfl fun event member => .inl (by simpa using member)
  | hostWrite => exact passed.keep (accounted_apply passed.accounted _) rfl rfl fun _ => .inl
  | runKernel queue _ => exact passed.keep (accounted_apply passed.accounted _) rfl rfl (remains queue)
  | waited queue =>
    exact passed.keep passed.accounted rfl rfl (remains (show d.queue = [] ++ .waitStream :: _ from queue))
  | runCopy queue _ =>
    obtain ⟨completed, returned⟩ := streamed_results d.worker
    exact passed.keep passed.accounted.streamed completed returned (remains queue)
  | pass queue _ => exact passed.keep passed.accounted rfl rfl (remains queue)

/-! ### The order of the copy stream -/

/-- What is issued to the stream of the worker. -/
def transfersOf (items : List StreamItem) : List StreamItem := items.filter fun item => !item.isKernel

theorem transfersOf_append (items more : List StreamItem) :
    transfersOf (items ++ more) = transfersOf items ++ transfersOf more := List.filter_append ..

/-- What the worker's stream has still to run is what was issued last. -/
theorem suffix_step {event : AscendEvent τ} {program : List StreamItem}
    (suffix : transfersOf d.queue <:+ transfersOf program) (stepped : d.step worker event = some next) :
    transfersOf next.queue <:+ transfersOf (program ++ issues worker d event) := by
  have shorter : ∀ {before rest : List StreamItem} {item : StreamItem}, d.queue = before ++ item :: rest →
      (∀ item ∈ before, item.isKernel = true) → transfersOf (before ++ rest) <:+ transfersOf program := by
    intro before rest item queue kernels
    have nothing : transfersOf before = [] := by
      simpa [transfersOf, List.filter_eq_nil_iff] using kernels
    rw [queue, transfersOf_append, nothing, List.nil_append] at suffix
    rw [transfersOf_append, nothing, List.nil_append]
    refine List.IsSuffix.trans ?_ suffix
    exact (List.suffix_cons item rest).filter _
  cases moves_of_step stepped with
  | call made =>
    obtain ⟨front, whole⟩ := suffix
    exact ⟨front, by rw [transfersOf_append, transfersOf_append, ← whole, List.append_assoc]⟩
  | launch => simpa [transfersOf_append, transfersOf, issues, StreamItem.isKernel] using suffix
  | hostWrite => simpa [transfersOf_append, transfersOf, issues, StreamItem.isKernel] using suffix
  | @runKernel transfers rest kernel queue first =>
    change transfersOf _ <:+ transfersOf (program ++ [])
    rw [List.append_nil]
    rw [queue] at suffix
    simpa [transfersOf_append, transfersOf, StreamItem.isKernel] using suffix
  | waited queue =>
    change transfersOf _ <:+ transfersOf (program ++ [])
    rw [List.append_nil]
    exact shorter (show d.queue = [] ++ .waitStream :: _ from queue) (by simp)
  | runCopy queue first =>
    change transfersOf _ <:+ transfersOf (program ++ [])
    rw [List.append_nil]
    exact shorter queue first
  | pass queue first =>
    change transfersOf _ <:+ transfersOf (program ++ [])
    rw [List.append_nil]
    exact shorter queue first

/-- Once the event of a job has been passed, nothing is left of the stream up to it. -/
theorem suffix_behind {left before after : List StreamItem} {item : StreamItem}
    (suffix : left <:+ before ++ item :: after) (passed : item ∉ left) : left <:+ after := by
  obtain ⟨front, whole⟩ := suffix
  rcases List.append_eq_append_iff.mp whole with ⟨middle, rfl, same⟩ | ⟨middle, rfl, same⟩
  · exact absurd (same ▸ List.mem_append_right middle List.mem_cons_self) passed
  · cases middle with
    | nil =>
      rw [List.nil_append] at same
      exact absurd (same ▸ List.mem_cons_self) passed
    | cons first rest =>
      obtain ⟨_, rfl⟩ := List.cons.inj same
      exact ⟨rest, rfl⟩

section PromisedRun

variable {start : AscendStreams τ} {events : List (AscendEvent τ)}

/-- What the events of a run issue, in the order of the program. -/
def program (worker : TransferWorker) (start : AscendStreams τ) (events : List (AscendEvent τ)) : List StreamItem :=
  emitted (AscendStreams.step worker) (issues worker) start events

theorem computed_of_promised (source : AscendStreams τ) (event : AscendEvent τ) (target : AscendStreams τ)
    (promised : Promised worker source event target) : source.step worker event = some target := promised.2.2

theorem program_append (run : Run (Promised worker) start events d) (more : List (AscendEvent τ)) :
    program worker start (events ++ more) = program worker start events ++ program worker d more :=
  emitted_append (run.mono computed_of_promised) more

theorem program_snoc (run : Run (Promised worker) start events d) {event : AscendEvent τ}
    (promised : Promised worker d event next) :
    program worker start (events ++ [event]) = program worker start events ++ issues worker d event := by
  rw [program_append run, program, program, emitted_single promised.2.2]

/-- A promised run follows the program that it issues. -/
theorem inOrder_of_run (run : Run (Promised worker) start events d) (initially : InOrder start memory) :
    InOrder d (Action.runAll ((program worker start events).map StreamItem.action) memory) := by
  obtain ⟨last, sequential, inOrder⟩ := Run.simulated computed_of_promised InOrder run initially
    fun _ _ _ _ _ inOrder promised => answered_promised inOrder promised
  obtain rfl := runAll_of_sequential sequential
  exact inOrder

omit [Sub τ] in
theorem inOrder_init (memories : Memories) : InOrder (init memories : AscendStreams τ) memories.at :=
  ⟨trivial, rfl, rfl, fun _ member => by cases member⟩

omit [Sub τ] in
/-- A byte that nothing queued writes is up to date. -/
theorem InOrder.settled (inOrder : InOrder d memory) {address : MemoryAddress}
    (outside : ∀ item ∈ d.queue, address ∉ item.action.writes) : d.worker.memories.at address = memory address := by
  rw [← inOrder.memory, Action.runAll_frame]
  intro action inside
  obtain ⟨item, queued, rfl⟩ := List.mem_map.mp inside
  exact outside item queued

theorem passed_of_run {memories : Memories} (run : Run (Promised worker) (init memories) events d) : Passed d :=
  run.preserves Passed ⟨AscendTransfer.accounted_init memories, fun _ member => by cases member⟩
    fun _ _ _ _ passed promised => passed.step promised.2.1 promised.2.2

theorem suffix_of_run (run : Run (Promised worker) start events d) :
    transfersOf d.queue <:+ transfersOf (start.queue ++ program worker start events) := by
  refine run.invariant (fun events d => transfersOf d.queue <:+
    transfersOf (start.queue ++ program worker start events)) ?_ ?_
  · rw [program, emitted, List.append_nil]
  · intro past source event target earlier suffix promised
    rw [program_snoc earlier promised, ← List.append_assoc]
    exact suffix_step suffix promised.2.2

end PromisedRun

/-- However kernels, host writes and transfers overlap, every byte that no queued item writes is what a program
makes of it that runs them one after the other as they are issued. A job reported as a success has been carried
out, with all jobs issued before it. -/
theorem transfers_synchronous {memories : Memories} {events : List (AscendEvent τ)}
    (run : Run (Promised worker) (init memories) events d) :
    (∀ address, (∀ item ∈ d.queue, address ∉ item.action.writes) → d.worker.memories.at address =
        Action.runAll ((program worker (init memories) events).map StreamItem.action) memories.at address) ∧
      ∀ result ∈ d.worker.completed ++ d.worker.returned, result.success = true → ∀ before after,
        transfersOf (program worker (init memories) events) = before ++ .record result.event :: after →
          transfersOf d.queue <:+ after := by
  have inOrder := inOrder_of_run run (inOrder_init memories)
  refine ⟨fun address => inOrder.settled, fun result member success before after order => ?_⟩
  have suffix := suffix_of_run run
  rw [init, List.nil_append, ← init, order] at suffix
  apply suffix_behind suffix
  intro inside
  exact (passed_of_run run).results result member success (List.mem_of_mem_filter inside)

/-- A worker for one tensor of two rows of two bytes, with one block in a CPU block. -/
def narrowWorker : TransferWorker :=
  AscendCopyWorker.toTransferWorker ⟨1, [[⟨0, 2⟩]], [⟨⟨"npu", 0⟩, 0, 2, 2, 2, 1⟩], [⟨⟨"cpu", 0⟩, 0, 2, 2, 2, 1⟩]⟩

/-- A kernel that writes one byte of the device. -/
def setByte (address : ℕ) (value : UInt8) : Action MemoryAddress UInt8 where
  reads := ∅
  writes := {.device address}
  run bytes := Function.update bytes (.device address) value
  frame _ _ outside := Function.update_of_ne outside ..
  locality _ _ _ _ member := by rw [Set.mem_singleton_iff.mp member, Function.update_self, Function.update_self]

/-- A block is stored that a kernel launched before has yet to write. -/
theorem transfers_synchronous_stored : ∃ events, ∃ d : AscendStreams ℤ,
    Run (Promised narrowWorker) (init ⟨fun _ => 0, fun _ => 0⟩) events d ∧ d.worker.memories.at (.host 0) = 9 ∧
      d.worker.returned.map TransferResult.success = [true] := by
  have launched : Run (Promised narrowWorker) (init ⟨fun _ => 0, fun _ => 0⟩ : AscendStreams ℤ) _ _ :=
    .single (show Promised narrowWorker _ (.launch (setByte 2 9)) _ from
      ⟨fun _ member => (by cases member), trivial, rfl⟩)
  have submitted := launched.snoc
    (show Promised narrowWorker _ (.call (.submitStore 7 ⟨[1], [1], [0]⟩ ⟨[0]⟩ 0)) _ from ⟨trivial, trivial, rfl⟩)
  have written := submitted.snoc (show Promised narrowWorker _ .runKernel _ from ⟨trivial, trivial, rfl⟩)
  have waited := written.snoc (show Promised narrowWorker _ .runTransfer _ from ⟨trivial, trivial, rfl⟩)
  have copied := waited.snoc (show Promised narrowWorker _ .runTransfer _ from ⟨trivial, trivial, rfl⟩)
  have passed := copied.snoc (show Promised narrowWorker _ .runTransfer _ from ⟨trivial, trivial, rfl⟩)
  have finished := passed.snoc (show Promised narrowWorker _
    (.call (.getFinished (fun _ => some true) fun _ => 1)) _ from ⟨trivial, fun _ _ member => (by cases member), rfl⟩)
  exact ⟨_, _, finished, ((transfers_synchronous finished).1 _ fun _ member => (by cases member)).trans rfl, rfl⟩

end KVTiering.Soundness.AscendStreams
