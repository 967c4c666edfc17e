import KVTiering.Soundness.StreamRoundTrip

/-! # Shutting a worker down

`shutdown` waits for the jobs in flight and then cleans the host region up. A copy that still runs after that belongs
to a job that was reported as a failure, or for which waiting has raised: every submission ends with its event.
-/

namespace KVTiering.Soundness.AscendStreams

open Model Model.AscendStreams AscendLayoutWorker

variable {τ : Type} {worker : TransferWorker} {d next : AscendStreams τ}

/-- Every transfer that is resolved is issued as a whole. -/
def IssuesWhole (worker : TransferWorker) : Prop :=
  ∀ gpuSpec cpuSpec plan spans, copyPlan gpuSpec cpuSpec worker.refs worker.factor = .ok plan →
    worker.spans plan = .ok spans → ∀ store, (issueCopies store [] spans).2 = .ok ()

theorem issuesWhole_of_fits {worker : Model.AscendLayoutWorker} (fits : WorkerFits worker) :
    IssuesWhole worker.toTransferWorker := by
  intro gpuSpec cpuSpec plan spans planned spanned store
  have resolved : worker.resolve gpuSpec cpuSpec = .ok spans := bind_eq_ok_iff.mpr ⟨plan, planned, spanned⟩
  have lengths : ∀ span ∈ spans, span.1.length = span.2.length :=
    fun span member => ((resolve_spec fits resolved).1 span member).1
  rw [SpanBounds.issueCopies_ok [] lengths]

theorem submitted_whole (whole : IssuesWhole worker) (state : TransferState τ) (jobId : ℤ)
    (gpuSpec : GPULoadStoreSpec) (cpuSpec : CPULoadStoreSpec) (store : Bool) (now : τ) :
    (state.submitted worker jobId gpuSpec cpuSpec store = [] ∧
      (state.submit worker jobId gpuSpec cpuSpec store now).1.accepted = state.accepted) ∨
    ∃ front, state.submitted worker jobId gpuSpec cpuSpec store = front ++ [.record state.accepted.length] ∧
      (state.submit worker jobId gpuSpec cpuSpec store now).1.accepted = state.accepted ++ [jobId] := by
  unfold TransferState.submitted TransferState.submit
  by_cases pending : jobId ∈ state.pending
  · exact .inl ⟨by rw [if_pos pending], by rw [if_pos pending]⟩
  · rw [if_neg pending, if_neg pending]
    cases planned : copyPlan gpuSpec cpuSpec worker.refs worker.factor with
    | error raised => exact .inl ⟨rfl, rfl⟩
    | ok plan =>
      dsimp only
      cases spanned : worker.spans plan with
      | error raised => exact .inl ⟨rfl, rfl⟩
      | ok spans =>
        dsimp only
        rw [issueCopies_append store state.stream, whole _ _ _ _ planned spanned]
        exact .inr ⟨_, rfl, rfl⟩

/-! ### The calls keep the jobs they have accepted -/

section Accepted

variable [Sub τ]

theorem accepted_getFinished (state : TransferState τ) (query : ℕ → Option Bool) (now : ℕ → τ) :
    (state.getFinished query now).accepted = state.accepted := by
  have polled : ∀ (jobIds : List ℤ) (done : List (TransferResult τ) × TransferState τ),
      (jobIds.foldl (TransferState.poll query now) done).2.accepted = done.2.accepted := by
    intro jobIds
    induction jobIds with
    | nil => exact fun _ => rfl
    | cons jobId rest ih =>
      intro done
      rw [List.foldl_cons, ih]
      unfold TransferState.poll
      split
      · rfl
      · split <;> rfl
  exact polled state.inflight.keys ([], state)

theorem accepted_wait (state : TransferState τ) (jobIds : List ℤ) (synchronize : ℕ → Bool) (now : ℕ → τ) :
    (state.wait jobIds synchronize now).accepted = state.accepted := by
  rw [TransferState.wait]
  induction jobIds generalizing state with
  | nil => rfl
  | cons jobId rest ih =>
    rw [List.foldl_cons, ih]
    unfold TransferState.waitFor
    split <;> rfl

omit [Sub τ] in
theorem accepted_streamed (state : TransferState τ) : state.streamed.accepted = state.accepted := by
  unfold TransferState.streamed
  split
  · rfl
  · split <;> rfl

/-- A call issues nothing and accepts nothing, or it issues a transfer and accepts its job. -/
theorem call_whole (whole : IssuesWhole worker) (d : AscendStreams τ) {call : TransferCall τ}
    (made : call ≠ .streamed) :
    (issues worker d (.call call) = [] ∧ (d.worker.call worker call).accepted = d.worker.accepted) ∨
    ∃ front jobId, issues worker d (.call call) = front ++ [.record d.worker.accepted.length] ∧
      (d.worker.call worker call).accepted = d.worker.accepted ++ [jobId] := by
  cases call with
  | submitStore jobId srcSpec dstSpec now =>
    rcases submitted_whole whole d.worker jobId srcSpec dstSpec true now with nothing | ⟨front, issued, accepted⟩
    · exact .inl nothing
    · exact .inr ⟨front, jobId, issued, accepted⟩
  | submitLoad jobId srcSpec dstSpec now =>
    rcases submitted_whole whole d.worker jobId dstSpec srcSpec false now with nothing | ⟨front, issued, accepted⟩
    · exact .inl nothing
    · exact .inr ⟨front, jobId, issued, accepted⟩
  | getFinished query now => exact .inl ⟨rfl, accepted_getFinished d.worker query now⟩
  | wait jobIds synchronize now => exact .inl ⟨rfl, accepted_wait d.worker jobIds synchronize now⟩
  | streamed => exact absurd rfl made

omit [Sub τ] in
/-- The event that a call records is the next one. -/
theorem event_of_issued {call : TransferCall τ} (made : call ≠ .streamed) {event : ℕ}
    (member : .record event ∈ issues worker d (.call call)) : event = d.worker.accepted.length := by
  cases call with
  | submitStore jobId srcSpec dstSpec now | submitLoad jobId srcSpec dstSpec now =>
    rcases submitted_cases _ _ _ _ _ _ member now with same | ⟨_, same, _⟩ | same
    · cases same
    · cases same
    · exact StreamItem.record.inj same
  | getFinished | wait => cases member
  | streamed => exact absurd rfl made

end Accepted

/-! ### Every transfer in the queue has its event behind it -/

structure Closing (d : AscendStreams τ) : Prop where
  recorded : ∀ event, .record event ∈ d.queue → event < d.worker.accepted.length
  last : ∀ item, (transfersOf d.queue).getLast? = some item → ∃ event, item = .record event

theorem getLast?_of_suffix {α : Type*} {left whole : List α} (suffix : left <:+ whole) {item : α}
    (last : left.getLast? = some item) : whole.getLast? = some item := by
  obtain ⟨front, rfl⟩ := suffix
  rw [List.getLast?_append, last, Option.some_or]

variable [Sub τ]

theorem Closing.step {event : AscendEvent τ} (closing : Closing d) (whole : IssuesWhole worker)
    (stepped : d.step worker event = some next) : Closing next := by
  have suffix := suffix_step (List.suffix_refl (transfersOf d.queue)) stepped
  -- a step that issues no transfer
  have quiet : transfersOf (issues worker d event) = [] → next.worker.accepted = d.worker.accepted → Closing next := by
    intro nothing accepted
    rw [transfersOf_append, nothing, List.append_nil] at suffix
    refine ⟨fun recorded member => ?_, fun item last => closing.last item (getLast?_of_suffix suffix last)⟩
    have listed : .record recorded ∈ transfersOf next.queue := List.mem_filter.mpr ⟨member, rfl⟩
    rw [accepted]
    exact closing.recorded recorded (List.mem_of_mem_filter (suffix.subset listed))
  cases moves_of_step stepped with
  | @call call made =>
    rcases call_whole whole d made with ⟨nothing, accepted⟩ | ⟨front, jobId, issued, accepted⟩
    · exact quiet (by rw [nothing]; rfl) accepted
    · have grown : (d.worker.call worker call).accepted.length = d.worker.accepted.length + 1 := by simp [accepted]
      refine ⟨fun recorded member => ?_, fun item last => ?_⟩
      · dsimp only at member ⊢
        rcases List.mem_append.mp member with old | new
        · have older := closing.recorded recorded old
          omega
        · rw [event_of_issued made new]
          omega
      · have final := getLast?_of_suffix suffix last
        rw [issued, transfersOf_append, transfersOf_append] at final
        simp only [transfersOf, List.filter_cons, StreamItem.isKernel, Bool.not_false, if_true, List.filter_nil,
          List.getLast?_append, List.getLast?_singleton, Option.some_or, Option.some.injEq] at final
        exact ⟨_, final.symm⟩
  | launch => exact quiet rfl rfl
  | hostWrite => exact quiet rfl rfl
  | runKernel => exact quiet rfl rfl
  | waited => exact quiet rfl rfl
  | runCopy => exact quiet rfl (accepted_streamed d.worker)
  | pass => exact quiet rfl rfl

theorem closing_of_run (whole : IssuesWhole worker) {memories : Memories} {events : List (AscendEvent τ)}
    (run : Run (Promised worker) (init memories) events d) : Closing d := by
  refine run.preserves Closing ⟨fun _ member => (by cases member), fun _ last => (by cases last)⟩ ?_
  exact fun _ _ _ _ closing promised => closing.step whole promised.2.2

/-- The job of an event has been reported as a failure, or waiting for it raises. -/
def Unfinished (synchronize : ℕ → Bool) (state : TransferState τ) (event : ℕ) : Prop :=
  (∃ result ∈ state.completed ++ state.returned, result.event = event ∧ result.success = false) ∨
    event ∈ state.shutdownEvents ∧ synchronize event = false

omit [Sub τ] in
theorem unfinished_of_queued (closing : Closing d) (passed : Passed d) {synchronize : ℕ → Bool}
    (truthful : ∀ event, synchronize event = true → .record event ∉ d.queue) {event : ℕ}
    (queued : .record event ∈ d.queue) : Unfinished synchronize d.worker event := by
  have inside := closing.recorded event queued
  have listed : (event, d.worker.accepted[event]) ∈ d.worker.accepted.zipIdx.map Prod.swap :=
    List.mem_map.mpr ⟨(d.worker.accepted[event], event), List.mk_mem_zipIdx_iff_getElem?.mpr (by simp [inside]), rfl⟩
  rcases List.mem_append.mp (passed.accounted.shared.mem_iff.mpr listed) with inflight | reported
  · obtain ⟨item, member, same⟩ := List.mem_map.mp inflight
    have waited : event ∈ d.worker.shutdownEvents :=
      List.mem_map.mpr ⟨item.2, List.mem_map_of_mem member, (Prod.mk.inj same).1⟩
    refine .inr ⟨waited, ?_⟩
    rw [← Bool.not_eq_true]
    exact fun returns => truthful event returns queued
  · obtain ⟨result, member, same⟩ := List.mem_map.mp reported
    rw [List.append_nil] at member
    refine .inl ⟨result, member, (Prod.mk.inj same).1, ?_⟩
    rw [← Bool.not_eq_true]
    intro success
    exact passed.results result member success ((Prod.mk.inj same).1 ▸ queued)

/-- When `shutdown` has waited for the jobs in flight, a copy that has not run has an event behind it whose job was
reported as a failure or cannot be waited for. If there is no such job, the stream of the worker is empty before the
region is cleaned up. -/
theorem shutdown_drains {α ρ : Type} {viewRows : α → ℕ → Except AscendError ByteRows}
    {createNextView : ρ → ℤ → Except AscendError (ByteRows × ρ)} (handsOut : HandsOutViews createNextView)
    {config : KVCacheConfig} {caches : Dict String (LayerCache α)} {layout : AscendLayout}
    (built : buildLayout viewRows config caches = .ok layout) {blockSizeFactor : ℤ} {region left : ρ}
    {worker : Model.AscendLayoutWorker}
    (made : AscendLayoutWorker.init createNextView layout blockSizeFactor region = .ok (worker, left))
    {memories : Memories} {events : List (AscendEvent τ)}
    (run : Run (Promised worker.toTransferWorker) (init memories) events d) {synchronize : ℕ → Bool}
    (truthful : ∀ event, synchronize event = true → .record event ∉ d.queue) :
    (∀ before copy after, d.queue = before ++ .copy copy :: after →
      ∃ event, .record event ∈ after ∧ Unfinished synchronize d.worker event) ∧
    ((∀ event, ¬ Unfinished synchronize d.worker event) → ∀ item ∈ d.queue, item.isKernel = true) := by
  have fits := (workerFits_of_init handsOut (wellFormed_of_buildLayout built) made).1
  have closing := closing_of_run (issuesWhole_of_fits fits) run
  have unfinished : ∀ event, .record event ∈ d.queue → Unfinished synchronize d.worker event :=
    fun event => unfinished_of_queued closing (passed_of_run run) truthful
  refine ⟨fun before copy after queue => ?_, fun finished item member => ?_⟩
  · have split : transfersOf d.queue = transfersOf before ++ .copy copy :: transfersOf after := by
      rw [queue, transfersOf_append]
      rfl
    cases last : (transfersOf after).getLast? with
    | none =>
      obtain ⟨event, same⟩ := closing.last (.copy copy) (by
        rw [split, List.getLast?_append, List.getLast?_eq_none_iff.mp last, List.getLast?_singleton, Option.some_or])
      cases same
    | some item =>
      obtain ⟨event, rfl⟩ := closing.last item (by
        rw [split, List.getLast?_append, List.getLast?_cons, last, Option.getD_some, Option.some_or])
      have inside := List.mem_of_mem_filter (List.mem_of_getLast? last)
      exact ⟨event, inside, unfinished event (queue ▸ by simp [inside])⟩
  · by_contra transfer
    have listed : item ∈ transfersOf d.queue := List.mem_filter.mpr ⟨member, by simpa using transfer⟩
    obtain ⟨last, atLast⟩ := Option.isSome_iff_exists.mp (List.getLast?_isSome.mpr (List.ne_nil_of_mem listed))
    obtain ⟨event, rfl⟩ := closing.last last atLast
    exact finished event (unfinished event (List.mem_of_mem_filter (List.mem_of_getLast? atLast)))

/-- A worker is shut down while a store is in flight and another kernel waits to run. -/
theorem shutdown_drains_shared : ∃ events, ∃ d : AscendStreams ℤ,
    Run (Promised sharedWorker.toTransferWorker) (init ⟨fun address => address.toUInt8, fun _ => 0⟩) events d ∧
      d.worker.shutdownEvents = [0] ∧ d.queue.length = 1 ∧ ∀ item ∈ d.queue, item.isKernel = true := by
  have built : buildLayout (fun rows _ => .ok rows) sharedConfig sharedCaches = .ok sharedLayout := rfl
  have made : AscendLayoutWorker.init nextHostView sharedLayout 2 0 = .ok (sharedWorker, 192) := rfl
  have before : Run (Promised sharedWorker.toTransferWorker)
      (init ⟨fun address => address.toUInt8, fun _ => 0⟩ : AscendStreams ℤ) _ _ :=
    .single (show Promised _ _ (.launch (setByte 83 200)) _ from ⟨fun _ member => (by cases member), trivial, rfl⟩)
  have submitted := promised_after before (.call (.submitStore 1 wideTransfer ⟨[0, 1, 2]⟩ (0 : ℤ))) trivial trivial rfl
  have stored := before.snoc submitted
  have written := promised_after stored .runKernel trivial trivial rfl
  have copied := (stored.snoc written).append (run_transfers written 8 rfl)
  have launched := copied.snoc (promised_after copied (.launch (setByte 40 1)) (fun _ member => (by cases member))
    trivial rfl)
  have queued : ∀ event, (fun _ : ℕ => true) event = true →
      StreamItem.record event ∉ [StreamItem.kernel (setByte 40 1)] := fun _ _ member => by simp at member
  refine ⟨_, _, launched, rfl, rfl, (shutdown_drains nextHostView_handsOut built made launched queued).2 ?_⟩
  rintro event (⟨result, member, _⟩ | ⟨_, raises⟩)
  · cases member
  · cases raises

end KVTiering.Soundness.AscendStreams
