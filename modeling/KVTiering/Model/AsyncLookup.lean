import KVTiering.Model.Request
import KVTiering.Model.SegmentStore

/-! # Asynchronous lookups

The scheduler thread collects the keys it has not asked for yet and posts them once per step; a worker
thread takes one posted batch at a time, asks for the keys of each request in turn, and posts the answers,
which the scheduler applies before it reads its own state again. The two threads share two queues only, so
each call of the scheduler is one step among those of the worker. What `batch_lookup` returns is a parameter
of the worker's step.

Queries are numbered in the order in which they are made. The numbers, and the batches that the worker has
processed, are history: nothing reads them.
-/

namespace KVTiering.Model

structure LookupState where
  result : Option Bool
  requestIds : Finset String
  /-- the number of the query whose answer `result` is -/
  answered : Option ℕ
deriving DecidableEq

/-- An item of `_lookup_batch`. -/
structure LookupQuery where
  key : OffloadKey
  reqContext : ReqContext
  number : ℕ

/-- An item of `results`. -/
structure LookupAnswer where
  key : OffloadKey
  hit : Bool
  number : ℕ
deriving DecidableEq, Repr

/-- A batch that has been processed: its queries by request, with what `batch_lookup` returned for each of the
requests or `none` where it raised, and the results posted. -/
structure LookupRecord where
  pending : List LookupQuery
  groups : List (List LookupQuery × Option (List Bool))
  results : List LookupAnswer

/-- The locals of `_worker`. -/
inductive LookupWorker where
  /-- in `_lookup_queue.get()` -/
  | waiting
  /-- in the loop over `batches.values()`: the groups answered, with their outcomes, and those still to come -/
  | processing (pending : List LookupQuery) (groups : List (List LookupQuery × Option (List Bool)))
      (batches : List (List LookupQuery)) (results : List LookupAnswer)
  | stopped

structure AsyncLookupManager where
  lookupState : Dict OffloadKey LookupState
  reqKeys : Dict String (Finset OffloadKey)
  lookupBatch : List LookupQuery
  lookupQueue : List (Option (List LookupQuery))
  pendingResults : List (List LookupAnswer)
  worker : LookupWorker
  /-- the number of queries made -/
  queries : ℕ
  /-- the batches processed -/
  records : List LookupRecord

inductive LookupError where
  | keyError
deriving DecidableEq, Repr

namespace AsyncLookupManager

def init : AsyncLookupManager := ⟨.empty, .empty, [], [], [], .waiting, 0, []⟩

/-- The inner loop of `drain_results` for one result. -/
def applyResult (lookupState : Dict OffloadKey LookupState) (answer : LookupAnswer) : Dict OffloadKey LookupState :=
  match lookupState.get? answer.key with
  | none => lookupState
  | some state => lookupState.set answer.key { state with result := some answer.hit, answered := some answer.number }

def drainResults (m : AsyncLookupManager) : AsyncLookupManager :=
  { m with
    lookupState := m.pendingResults.flatten.foldl applyResult m.lookupState
    pendingResults := [] }

/-- The entry of a key, made with a query for it if there is none. -/
def track (m : AsyncLookupManager) (key : OffloadKey) (reqContext : ReqContext) : LookupState × AsyncLookupManager :=
  match m.lookupState.get? key with
  | some state => (state, m)
  | none =>
    (⟨none, ∅, none⟩, { m with
      lookupBatch := m.lookupBatch ++ [⟨key, reqContext, m.queries⟩]
      queries := m.queries + 1 })

def lookup (m : AsyncLookupManager) (key : OffloadKey) (reqContext : ReqContext) :
    Option Bool × AsyncLookupManager :=
  let reqId := reqContext.reqId
  let (state, m) := m.drainResults.track key reqContext
  let state := { state with requestIds := insert reqId state.requestIds }
  (state.result, { m with
    lookupState := m.lookupState.set key state
    reqKeys := m.reqKeys.set reqId (insert key ((m.reqKeys.get? reqId).getD ∅)) })

def flush (m : AsyncLookupManager) : AsyncLookupManager :=
  if m.lookupBatch = [] then m
  else { m with lookupQueue := m.lookupQueue ++ [some m.lookupBatch], lookupBatch := [] }

/-- `cleanup`: the loop visits each key of the request once, and raises when one has no entry. -/
def cleanup (m : AsyncLookupManager) (reqId : String) : Except LookupError AsyncLookupManager :=
  let keys := (m.reqKeys.get? reqId).getD ∅
  if ∃ key ∈ keys, m.lookupState.get? key = none then .error .keyError
  else
    let released := m.lookupState.mapValues fun key state =>
      if key ∈ keys then { state with requestIds := state.requestIds.erase reqId } else state
    .ok { m with
      reqKeys := m.reqKeys.erase reqId
      lookupState := released.filter fun key state => key ∉ keys ∨ state.requestIds ≠ ∅ }

/-- The first half of `shutdown`: the sentinel is posted. -/
def postSentinel (m : AsyncLookupManager) : AsyncLookupManager :=
  { m with lookupQueue := m.lookupQueue ++ [none] }

/-! ## The worker thread -/

/-- `batches.values()`: the queries of each request, in the order of their first. -/
def batches (pending : List LookupQuery) : List (List LookupQuery) :=
  (Dict.groupOn (fun query => query.reqContext.reqId) pending).values

/-- `for key, hit in zip(keys, hits)`, where `hits` are all false if the lookup raised. -/
def answers (group : List LookupQuery) (outcome : Option (List Bool)) : List LookupAnswer :=
  (group.zip (outcome.getD (group.map fun _ => false))).map fun item =>
    ⟨item.1.key, item.2, item.1.number⟩

/-- `_lookup_queue.get()` returns, and the batch is grouped. -/
def getBatch (m : AsyncLookupManager) : Option AsyncLookupManager :=
  match m.worker, m.lookupQueue with
  | .waiting, none :: rest => some { m with lookupQueue := rest, worker := .stopped }
  | .waiting, some pending :: rest =>
    some { m with
      lookupQueue := rest
      worker := if batches pending = [] then .waiting else .processing pending [] (batches pending) [] }
  | _, _ => none

/-- One round of the loop over the groups; `outcome` is `none` when `batch_lookup` raises. -/
def answerGroup (m : AsyncLookupManager) (outcome : Option (List Bool)) : Option AsyncLookupManager :=
  match m.worker with
  | .processing pending groups (group :: rest) results =>
    some { m with
      worker := .processing pending (groups ++ [(group, outcome)]) rest (results ++ answers group outcome) }
  | _ => none

/-- The results of a batch are posted. -/
def postResults (m : AsyncLookupManager) : Option AsyncLookupManager :=
  match m.worker with
  | .processing pending groups [] results =>
    some { m with
      pendingResults := if results = [] then m.pendingResults else m.pendingResults ++ [results]
      worker := .waiting
      records := m.records ++ [⟨pending, groups, results⟩] }
  | _ => none

end AsyncLookupManager

/-- The steps of the two threads. -/
inductive LookupEvent where
  | lookup (key : OffloadKey) (reqContext : ReqContext)
  | flush
  | drainResults
  | cleanup (reqId : String)
  | postSentinel
  | getBatch
  | answerGroup (outcome : Option (List Bool))
  | postResults

/-- Whether the worker takes the step; the others are calls of the scheduler. -/
def LookupEvent.ofWorker : LookupEvent → Bool
  | .getBatch => true
  | .answerGroup _ => true
  | .postResults => true
  | _ => false

/-- The group that the worker asks for next. -/
def LookupWorker.group : LookupWorker → List LookupQuery
  | .processing _ _ (group :: _) _ => group
  | _ => []

namespace AsyncLookupManager

/-- One step; `batch_lookup` raises or returns a boolean for each key. -/
def step (m : AsyncLookupManager) : LookupEvent → Option AsyncLookupManager
  | .lookup key reqContext => some (m.lookup key reqContext).2
  | .flush => some m.flush
  | .drainResults => some m.drainResults
  | .cleanup reqId => (m.cleanup reqId).toOption
  | .postSentinel => some m.postSentinel
  | .getBatch => m.getBatch
  | .answerGroup outcome =>
    if ∀ hits ∈ outcome, hits.length = m.worker.group.length then m.answerGroup outcome else none
  | .postResults => m.postResults

/-! ## What a step does -/

/-- The steps, one constructor for each kind. -/
inductive Moves (m : AsyncLookupManager) : LookupEvent → AsyncLookupManager → Prop
  | lookup {key : OffloadKey} {reqContext : ReqContext} : Moves m (.lookup key reqContext) (m.lookup key reqContext).2
  | flushNothing (empty : m.lookupBatch = []) : Moves m .flush m
  | flush (collected : m.lookupBatch ≠ []) :
      Moves m .flush { m with lookupQueue := m.lookupQueue ++ [some m.lookupBatch], lookupBatch := [] }
  | drainResults : Moves m .drainResults m.drainResults
  | cleanup {reqId : String} {next : AsyncLookupManager} (cleaned : m.cleanup reqId = .ok next) :
      Moves m (.cleanup reqId) next
  | postSentinel : Moves m .postSentinel { m with lookupQueue := m.lookupQueue ++ [none] }
  | stop {rest : List (Option (List LookupQuery))} (idle : m.worker = .waiting)
      (queue : m.lookupQueue = none :: rest) : Moves m .getBatch { m with lookupQueue := rest, worker := .stopped }
  | getBatch {pending : List LookupQuery} {rest : List (Option (List LookupQuery))} (idle : m.worker = .waiting)
      (queue : m.lookupQueue = some pending :: rest) :
      Moves m .getBatch { m with
        lookupQueue := rest
        worker := if batches pending = [] then .waiting else .processing pending [] (batches pending) [] }
  | answerGroup {pending group : List LookupQuery} {groups : List (List LookupQuery × Option (List Bool))}
      {rest : List (List LookupQuery)} {results : List LookupAnswer} {outcome : Option (List Bool)}
      (working : m.worker = .processing pending groups (group :: rest) results)
      (parallel : ∀ hits ∈ outcome, hits.length = group.length) :
      Moves m (.answerGroup outcome) { m with
        worker := .processing pending (groups ++ [(group, outcome)]) rest (results ++ answers group outcome) }
  | postResults {pending : List LookupQuery} {groups : List (List LookupQuery × Option (List Bool))}
      {results : List LookupAnswer} (working : m.worker = .processing pending groups [] results) :
      Moves m .postResults { m with
        pendingResults := if results = [] then m.pendingResults else m.pendingResults ++ [results]
        worker := .waiting
        records := m.records ++ [⟨pending, groups, results⟩] }

theorem moves_of_step {m next : AsyncLookupManager} {event : LookupEvent} (stepped : m.step event = some next) :
    Moves m event next := by
  cases event with
  | lookup key reqContext =>
    cases stepped
    exact .lookup
  | flush =>
    cases stepped
    unfold flush
    split
    · next empty => exact .flushNothing empty
    · next collected => exact .flush collected
  | drainResults =>
    cases stepped
    exact .drainResults
  | cleanup reqId =>
    simp only [step] at stepped
    cases cleaned : m.cleanup reqId with
    | error raised => simp [cleaned, Except.toOption] at stepped
    | ok after =>
      rw [cleaned] at stepped
      obtain rfl := Option.some.inj stepped
      exact .cleanup cleaned
  | postSentinel =>
    cases stepped
    exact .postSentinel
  | getBatch =>
    simp only [step, getBatch] at stepped
    split at stepped
    · next idle queue =>
      cases stepped
      exact .stop idle queue
    · next idle queue =>
      cases stepped
      exact .getBatch idle queue
    · cases stepped
  | answerGroup outcome =>
    simp only [step, answerGroup] at stepped
    split at stepped
    · next parallel =>
      split at stepped
      · next working =>
        cases stepped
        rw [working] at parallel
        exact .answerGroup working parallel
      · cases stepped
    · cases stepped
  | postResults =>
    simp only [step, postResults] at stepped
    split at stepped
    · next working =>
      cases stepped
      exact .postResults working
    · cases stepped

end AsyncLookupManager

end KVTiering.Model
