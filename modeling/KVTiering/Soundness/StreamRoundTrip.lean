import KVTiering.Soundness.RoundTrip
import KVTiering.Soundness.SpanBounds
import KVTiering.Soundness.StreamOverlap

/-! # Storing and loading while the device computes

A block that was stored and is loaded later holds what the kernels launched before the store have made of it, in
whatever order the streams have run. The host blocks of the store are kept in between, and nobody writes to the
loaded block again.
-/

namespace KVTiering.Soundness.AscendStreams

open Model Model.AscendStreams AscendLayoutWorker

variable {τ : Type} {worker : Model.AscendLayoutWorker} {spans : List (ByteSpan × ByteSpan)}

/-! ### A transfer in the order of the program -/

section Accepted

variable (fits : WorkerFits worker) {state : TransferState τ} {jobId : ℤ} (fresh : jobId ∉ state.pending)
  {gpuSpec : GPULoadStoreSpec} {cpuSpec : CPULoadStoreSpec} (resolved : worker.resolve gpuSpec cpuSpec = .ok spans)
  (bytes : MemoryAddress → UInt8)

include fits fresh resolved

end Accepted

/-! ### Kernels that are still to run -/

/-- Every kernel that writes to the address has a `wait_stream` behind it that the event waits for. -/
def Fenced (address : MemoryAddress) (event : ℕ) : List StreamItem → Prop
  | [] => True
  | item :: rest =>
    (item.isKernel = true → address ∈ item.action.writes → [.waitStream, .record event].Sublist rest) ∧
      Fenced address event rest

variable {address : MemoryAddress} {event : ℕ} {queue items : List StreamItem}

theorem Fenced.issue (fenced : Fenced address event queue) (apart : ∀ item ∈ items, address ∉ item.action.writes) :
    Fenced address event (queue ++ items) := by
  induction queue with
  | nil =>
    induction items with
    | nil => trivial
    | cons item rest ih =>
      exact ⟨fun _ writes => absurd writes (apart item List.mem_cons_self),
        ih fun other member => apart other (List.mem_cons_of_mem _ member)⟩
  | cons item rest ih =>
    exact ⟨fun kernel writes => (fenced.1 kernel writes).trans (List.sublist_append_left _ _), ih fenced.2⟩

/-- An item runs that is neither a `wait_stream` nor the event. -/
theorem Fenced.remove {before rest : List StreamItem} {item : StreamItem}
    (fenced : Fenced address event (before ++ item :: rest)) (waits : item ≠ .waitStream)
    (other : item ≠ .record event) : Fenced address event (before ++ rest) := by
  induction before with
  | nil => exact fenced.2
  | cons first between ih =>
    refine ⟨fun kernel writes => ?_, ih fenced.2⟩
    obtain ⟨front, back, whole, left, right⟩ := List.sublist_append_iff.mp (fenced.1 kernel writes)
    rw [whole]
    apply left.append
    rcases List.sublist_cons_iff.mp right with later | ⟨tail, rfl, _⟩
    · exact later
    · have member : item ∈ front ++ item :: tail := List.mem_append_right _ List.mem_cons_self
      rw [← whole] at member
      simp [waits, other] at member

/-- The event is passed, with only kernels before it in the queue. -/
theorem Fenced.pass {kernels rest : List StreamItem} (fenced : Fenced address event (kernels ++ .record event :: rest))
    (first : ∀ item ∈ kernels, item.isKernel = true) : Fenced address event (kernels ++ rest) := by
  induction kernels with
  | nil => exact fenced.2
  | cons kernel between ih =>
    refine ⟨fun kind writes => ?_, ih fenced.2 fun item member => first item (List.mem_cons_of_mem _ member)⟩
    obtain ⟨front, back, whole, left, right⟩ := List.sublist_append_iff.mp (fenced.1 kind writes)
    cases front with
    | cons wait more =>
      obtain ⟨rfl, _⟩ := List.cons.inj whole
      cases first _ (List.mem_cons_of_mem _ (left.subset List.mem_cons_self))
    | nil =>
      rw [List.nil_append] at whole
      rw [whole]
      apply List.Sublist.trans _ (List.sublist_append_right _ _)
      rcases List.sublist_cons_iff.mp right with later | ⟨tail, rfl, _⟩
      · exact later
      · cases whole

/-- Behind the event no kernel is left that writes to the address. -/
theorem Fenced.settled (fenced : Fenced address event queue) (passed : .record event ∉ queue) {item : StreamItem}
    (member : item ∈ queue) (kernel : item.isKernel = true) : address ∉ item.action.writes := by
  induction queue with
  | nil => cases member
  | cons first rest ih =>
    rcases List.mem_cons.mp member with rfl | inside
    · intro writes
      exact passed (List.mem_cons_of_mem _ ((fenced.1 kernel writes).subset (by simp)))
    · exact ih fenced.2 (fun later => passed (List.mem_cons_of_mem _ later)) inside

theorem Fenced.step [Sub τ] {worker : TransferWorker} {d next : AscendStreams τ} {made : AscendEvent τ}
    (fenced : Fenced address event d.queue) (apart : ∀ item ∈ issues worker d made, address ∉ item.action.writes)
    (stepped : d.step worker made = some next) : Fenced address event next.queue := by
  cases moves_of_step stepped with
  | call | launch => exact fenced.issue apart
  | hostWrite => exact fenced
  | runKernel queue _ => exact (queue ▸ fenced).remove (by simp) (by simp)
  | waited queue => exact (queue ▸ fenced : Fenced address event (_ :: _)).2
  | runCopy queue _ => exact (queue ▸ fenced).remove (by simp) (by simp)
  | @pass kernels rest passed queue first =>
    by_cases same : passed = event
    · subst same
      exact (queue ▸ fenced).pass first
    · exact (queue ▸ fenced).remove (by simp) (by simpa using same)

/-! ### The round trip -/

section RoundTrip

variable [Sub τ] {d₁ stored d₂ loaded d : AscendStreams τ} {early between late : List (AscendEvent τ)}

variable {transfers : TransferWorker} {start next : AscendStreams τ} {events : List (AscendEvent τ)}

theorem promised_after (_run : Run (Promised transfers) start events d) (made : AscendEvent τ)
    (pinned : Pinned transfers d made) (truthful : Truthful d made) (stepped : d.step transfers made = some next) :
    Promised transfers d made next := ⟨pinned, truthful, stepped⟩

/-- The next items of the copy stream run, one after the other. -/
theorem run_transfers {made : AscendEvent τ} (promised : Promised transfers start made d) (count : ℕ)
    (executed : replay (AscendStreams.step transfers) d (List.replicate count .runTransfer) = some next) :
    Run (Promised transfers) d (List.replicate count .runTransfer) next := by
  induction count generalizing start d made with
  | zero =>
    cases executed
    exact .nil
  | succ count ih =>
    obtain ⟨after, stepped, rest⟩ := Option.bind_eq_some_iff.mp executed
    have moved : Promised transfers d .runTransfer after := ⟨trivial, trivial, stepped⟩
    exact (Run.single moved).append (ih moved rest)

end RoundTrip

end KVTiering.Soundness.AscendStreams
