import KVTiering.Model.AscendTransfer
import Mathlib.Data.List.Perm.Basic

/-! # Every accepted transfer is reported once

The table of jobs in flight, the list of completed results and the results already handed out share the
events of the accepted submissions among them: polling and waiting take a job out of the table and add its
result to the list, and nothing else moves between the three. The set of pending identifiers follows the
table.
-/

namespace KVTiering.Soundness

open Model

variable {τ : Type}

/-- The event and the identifier of a job in flight. -/
def jobOfEntry (item : ℤ × Inflight τ) : ℕ × ℤ := (item.2.event, item.1)

def jobOfResult (result : TransferResult τ) : ℕ × ℤ := (result.event, result.jobId)

namespace AscendTransfer

/-- Everything the worker still knows of its accepted submissions, `finished` being results that a poll in
progress has not put anywhere yet. -/
def jobs (state : TransferState τ) (finished : List (TransferResult τ)) : List (ℕ × ℤ) :=
  state.inflight.items.map jobOfEntry ++ (state.completed ++ (state.returned ++ finished)).map jobOfResult

/-- The invariant of the calls. -/
structure Accounted (state : TransferState τ) (finished : List (TransferResult τ)) : Prop where
  pending : ∀ jobId, jobId ∈ state.pending ↔ jobId ∈ state.inflight.keys
  shared : (jobs state finished).Perm (state.accepted.zipIdx.map Prod.swap)
  success : ∀ result ∈ state.completed ++ (state.returned ++ finished),
    result.success = true → result.event ∈ state.observed

theorem accounted_init (memories : Memories) : Accounted (.init memories : TransferState τ) [] where
  pending := by simp [TransferState.init, Dict.empty, Dict.keys]
  shared := by simp [TransferState.init, jobs, Dict.empty]
  success := by simp [TransferState.init]

/-- An accepted submission is a new job in flight; a rejected one changes nothing but the stream. -/
theorem Accounted.submit {state : TransferState τ} (accounted : Accounted state []) (worker : TransferWorker)
    (jobId : ℤ) (gpuSpec : GPULoadStoreSpec) (cpuSpec : CPULoadStoreSpec) (store : Bool) (now : τ) :
    Accounted (state.submit worker jobId gpuSpec cpuSpec store now).1 [] := by
  unfold TransferState.submit
  split
  · exact accounted
  · next free =>
    split
    · exact accounted
    · next plan planned =>
      split
      · exact accounted
      · next spans spanned =>
        split
        · exact ⟨accounted.pending, accounted.shared, accounted.success⟩
        · next stream issued =>
          have absent : jobId ∉ state.inflight.keys := mt (accounted.pending jobId).mpr free
          refine ⟨?_, ?_, accounted.success⟩
          · intro other
            simp only [Finset.mem_insert, accounted.pending, Dict.keys, Dict.items_set_of_notMem absent,
              List.map_append, List.mem_append, List.map_cons, List.map_nil, List.mem_singleton]
            exact or_comm
          · have new : ((state.accepted ++ [jobId]).zipIdx).map Prod.swap =
                state.accepted.zipIdx.map Prod.swap ++ [(state.accepted.length, jobId)] := by
              simp [List.zipIdx_append]
            rw [new]
            simp only [jobs, Dict.items_set_of_notMem absent, List.map_append, List.map_cons, List.map_nil,
              List.append_assoc]
            apply (List.perm_append_comm.append_left _).trans
            have shared := accounted.shared.append_right [(state.accepted.length, jobId)]
            simp only [jobs, List.map_append, List.append_nil, List.append_assoc] at shared ⊢
            exact shared

/-- The stream knows nothing of jobs. -/
theorem Accounted.streamed {state : TransferState τ} (accounted : Accounted state []) :
    Accounted state.streamed [] := by
  unfold TransferState.streamed
  split
  · exact accounted
  · split
    · exact accounted
    · exact ⟨accounted.pending, accounted.shared, accounted.success⟩

variable [Sub τ]

/-- A job whose event is done leaves the table, and its result is one of the finished ones. -/
theorem Accounted.finish {state : TransferState τ} {finished : List (TransferResult τ)}
    (accounted : Accounted state finished) {jobId : ℤ} {entry : Inflight τ}
    (found : state.inflight.get? jobId = some entry) (success : Bool) (now : τ) :
    let taken := { state with
      inflight := state.inflight.erase jobId
      observed := if success then state.observed ++ [entry.event] else state.observed }
    Accounted (taken.finalize jobId success entry now).2
      (finished ++ [(taken.finalize jobId success entry now).1]) := by
  have grown : ∀ event ∈ state.observed,
      event ∈ if success then state.observed ++ [entry.event] else state.observed := by
    intro event old
    split
    · exact List.mem_append_left _ old
    · exact old
  refine ⟨?_, ?_, ?_⟩
  · intro other
    have kept : other ∈ (state.inflight.erase jobId).keys ↔ other ≠ jobId ∧ other ∈ state.inflight.keys := by
      simp only [← Dict.contains_iff, Dict.contains, Dict.get?_erase]
      split <;> simp [*]
    simp only [TransferState.finalize, Finset.mem_erase, kept, accounted.pending]
  · refine List.Perm.trans ?_ accounted.shared
    have taken := (Dict.perm_erase found).map jobOfEntry
    simp only [jobs, TransferState.finalize, List.map_append, List.map_cons, List.map_nil]
    refine List.Perm.trans ?_ (taken.append_right _).symm
    simp only [← List.append_assoc]
    exact List.perm_append_singleton _ _
  · intro result member succeeded
    simp only [TransferState.finalize, ← List.append_assoc] at member
    rcases List.mem_append.mp member with old | new
    · exact grown _ (accounted.success result (by simpa using old) succeeded)
    · obtain rfl := List.mem_singleton.mp new
      simp only at succeeded
      simp [TransferState.finalize, succeeded]

theorem Accounted.poll {done : List (TransferResult τ) × TransferState τ} (accounted : Accounted done.2 done.1)
    (query : ℕ → Option Bool) (now : ℕ → τ) (jobId : ℤ) :
    Accounted (TransferState.poll query now done jobId).2 (TransferState.poll query now done jobId).1 := by
  unfold TransferState.poll
  split
  · exact accounted
  · next entry found =>
    split
    · exact accounted
    · exact accounted.finish found _ _

/-- What a poll finishes is handed out with what was complete before. -/
theorem Accounted.getFinished {state : TransferState τ} (accounted : Accounted state [])
    (query : ℕ → Option Bool) (now : ℕ → τ) : Accounted (state.getFinished query now) [] := by
  have polled : ∀ (jobIds : List ℤ) (done : List (TransferResult τ) × TransferState τ),
      Accounted done.2 done.1 → Accounted (jobIds.foldl (TransferState.poll query now) done).2
        (jobIds.foldl (TransferState.poll query now) done).1 := by
    intro jobIds
    induction jobIds with
    | nil => exact fun _ accounted => accounted
    | cons jobId rest ih => exact fun done accounted => ih _ (accounted.poll query now jobId)
  have last := polled state.inflight.keys ([], state) accounted
  unfold TransferState.getFinished
  refine ⟨last.pending, ?_, ?_⟩
  · refine List.Perm.trans ?_ last.shared
    simp only [jobs, List.nil_append, List.append_nil]
    refine List.Perm.append_left _ (List.Perm.map _ ?_)
    rw [← List.append_assoc, ← List.append_assoc]
    exact List.perm_append_comm.append_right _
  · intro result member
    apply last.success result
    simp only [List.nil_append, List.append_nil, List.mem_append] at member ⊢
    tauto

theorem Accounted.waitFor {state : TransferState τ} (accounted : Accounted state [])
    (synchronize : ℕ → Bool) (now : ℕ → τ) (jobId : ℤ) :
    Accounted (TransferState.waitFor synchronize now state jobId) [] := by
  unfold TransferState.waitFor
  split
  · exact accounted
  · next entry found =>
    obtain ⟨pending, shared, success⟩ := accounted.finish found (synchronize entry.event) (now entry.event)
    refine ⟨?_, ?_, ?_⟩
    · intro other
      rw [← pending other]
      simp [TransferState.finalize]
    · refine List.Perm.trans ?_ shared
      simp only [jobs, TransferState.finalize, List.append_nil, List.nil_append, List.append_assoc]
      exact List.Perm.append_left _ (List.Perm.map _ (List.perm_append_comm.append_left _))
    · intro result member
      apply success result
      simp only [TransferState.finalize, List.nil_append, List.append_nil, List.mem_append] at member ⊢
      tauto

theorem Accounted.wait {state : TransferState τ} (accounted : Accounted state []) (jobIds : List ℤ)
    (synchronize : ℕ → Bool) (now : ℕ → τ) : Accounted (state.wait jobIds synchronize now) [] := by
  induction jobIds generalizing state with
  | nil => exact accounted
  | cons jobId rest ih => exact ih (accounted.waitFor synchronize now jobId)

theorem Accounted.call {state : TransferState τ} (accounted : Accounted state []) (worker : TransferWorker)
    (call : TransferCall τ) : Accounted (state.call worker call) [] := by
  cases call with
  | submitStore jobId srcSpec dstSpec now => exact accounted.submit worker jobId srcSpec dstSpec true now
  | submitLoad jobId srcSpec dstSpec now => exact accounted.submit worker jobId dstSpec srcSpec false now
  | getFinished query now => exact accounted.getFinished query now
  | wait jobIds synchronize now => exact accounted.wait jobIds synchronize now
  | streamed => exact accounted.streamed

end AscendTransfer

end KVTiering.Soundness
