import KVTiering.Machine.Run
import KVTiering.Model.SegmentStore
import Mathlib.Logic.Function.Basic

/-! # Several segment stores on one root directory

Every process opens its own `SegmentStore` on the shared database, possibly with other constructor
arguments. The operations that write run under the exclusive lock of the directory, so a run is an
interleaving of whole operations. The plans a process has been given and the list of all issued writes
are history: no operation reads them.
-/

namespace KVTiering.Model

/-- One entry of a plan returned by `prepare_store`, with the instance's constructor arguments. -/
structure Issue where
  config : SegmentConfig
  entry : SegmentWrite

def Issue.extent (issue : Issue) : Extent := issue.entry.extent issue.config.blockSize

/-- The shared tables, each process's store, and the history of what was planned. -/
structure SharedStore (ι : Type) where
  db : Database
  store : ι → SegmentStore
  plans : ι → List SegmentStorePlan
  issued : List Issue

/-- The operations of the processes. A `prepare_store` that raises in its transaction is rolled back
and leaves what looking up its keys left; any other operation rolled back leaves no trace. -/
inductive StoreEvent (ι : Type) where
  | getLocations (process : ι) (keys : List OffloadKey)
  | prepareStore (process : ι) (keys : List OffloadKey) (blockIds : List ℕ)
  | completeStore (process : ι) (plan : SegmentStorePlan) (success : Bool)
  /-- `complete_store` raises after its commit, having read back some of the rows. -/
  | completeRaised (process : ι) (plan : SegmentStorePlan) (read : List OffloadKey)
  | delete (process : ι) (keys : List OffloadKey)
  | restart (process : ι) (config : SegmentConfig)

/-- The key is one of those the event deletes from the index. -/
def StoreEvent.Deletes {ι : Type} (key : OffloadKey) : StoreEvent ι → Prop
  | .delete _ keys => key ∈ keys
  | _ => False

namespace SharedStore

variable {ι : Type} [DecidableEq ι]

/-- Freshly constructed stores on a database that may already hold rows. -/
def init (db : Database) (config : ι → SegmentConfig) : SharedStore ι :=
  ⟨db, fun process => .init (config process), fun _ => [], []⟩

/-- The tables and one process's cache have changed. -/
def update (s : SharedStore ι) (process : ι) (db : Database) (store : SegmentStore) : SharedStore ι :=
  { s with db := db, store := Function.update s.store process store }

@[simp] theorem update_db (s : SharedStore ι) (process : ι) (db : Database) (store : SegmentStore) :
    (s.update process db store).db = db := rfl

@[simp] theorem update_store (s : SharedStore ι) (process : ι) (db : Database)
    (store : SegmentStore) :
    (s.update process db store).store = Function.update s.store process store := rfl

@[simp] theorem update_plans (s : SharedStore ι) (process : ι) (db : Database)
    (store : SegmentStore) : (s.update process db store).plans = s.plans := rfl

@[simp] theorem update_issued (s : SharedStore ι) (process : ι) (db : Database)
    (store : SegmentStore) : (s.update process db store).issued = s.issued := rfl

/-- `prepare_store` has returned this plan to the process. -/
def prepared (s : SharedStore ι) (process : ι) (plan : SegmentStorePlan) (db : Database)
    (store : SegmentStore) : SharedStore ι :=
  { s.update process db store with
    plans := Function.update s.plans process (plan :: s.plans process)
    issued := s.issued ++ plan.entries.map (Issue.mk (s.store process).config) }

@[simp] theorem prepared_db (s : SharedStore ι) (process : ι) (plan : SegmentStorePlan)
    (db : Database) (store : SegmentStore) : (s.prepared process plan db store).db = db := rfl

@[simp] theorem prepared_store (s : SharedStore ι) (process : ι) (plan : SegmentStorePlan)
    (db : Database) (store : SegmentStore) :
    (s.prepared process plan db store).store = Function.update s.store process store := rfl

@[simp] theorem prepared_plans (s : SharedStore ι) (process : ι) (plan : SegmentStorePlan)
    (db : Database) (store : SegmentStore) : (s.prepared process plan db store).plans =
      Function.update s.plans process (plan :: s.plans process) := rfl

@[simp] theorem prepared_issued (s : SharedStore ι) (process : ι) (plan : SegmentStorePlan)
    (db : Database) (store : SegmentStore) : (s.prepared process plan db store).issued =
      s.issued ++ plan.entries.map (Issue.mk (s.store process).config) := rfl

def step (s : SharedStore ι) : StoreEvent ι → Option (SharedStore ι)
  | .getLocations process keys =>
    some (s.update process s.db ((s.store process).getLocations s.db keys).2)
  | .prepareStore process keys blockIds =>
    match (s.store process).prepareStore s.db keys blockIds with
    | .error _ => none
    | .ok (plan, db, store) => some (s.prepared process plan db store)
  | .completeStore process plan success =>
    if plan ∈ s.plans process then
      let (db, store) := (s.store process).completeStore s.db plan success
      some (s.update process db store)
    else none
  | .completeRaised process plan read =>
    if plan ∈ s.plans process then
      let db := s.db.indexPlan (s.store process).config.blockSize plan
      some (s.update process db ((s.store process).getLocations db read).2)
    else none
  | .delete process keys =>
    let (_, db, store) := (s.store process).delete s.db keys
    some (s.update process db store)
  | .restart process config =>
    some { s with
      store := Function.update s.store process (.init config)
      plans := Function.update s.plans process [] }

/-- The operations, one constructor for each outcome. -/
inductive Moves (s : SharedStore ι) : StoreEvent ι → SharedStore ι → Prop
  | getLocations {process : ι} {keys : List OffloadKey} : Moves s (.getLocations process keys)
      (s.update process s.db ((s.store process).getLocations s.db keys).2)
  | prepareStore {process : ι} {keys : List OffloadKey} {blockIds : List ℕ} {plan : SegmentStorePlan} {db : Database}
      {store : SegmentStore} (returned : (s.store process).prepareStore s.db keys blockIds = .ok (plan, db, store)) :
      Moves s (.prepareStore process keys blockIds) (s.prepared process plan db store)
  | completeNothing {process : ι} {plan : SegmentStorePlan} {success : Bool} (given : plan ∈ s.plans process)
      (nothing : success = false ∨ plan.entries = []) : Moves s (.completeStore process plan success)
      (s.update process s.db (s.store process))
  | completeStore {process : ι} {plan : SegmentStorePlan} (given : plan ∈ s.plans process)
      (planned : plan.entries ≠ []) : Moves s (.completeStore process plan true)
      (s.update process (s.db.indexPlan (s.store process).config.blockSize plan)
        ((s.store process).getLocations (s.db.indexPlan (s.store process).config.blockSize plan)
          (plan.entries.map SegmentWrite.key)).2)
  | completeRaised {process : ι} {plan : SegmentStorePlan} {read : List OffloadKey}
      (given : plan ∈ s.plans process) : Moves s (.completeRaised process plan read)
      (s.update process (s.db.indexPlan (s.store process).config.blockSize plan)
        ((s.store process).getLocations (s.db.indexPlan (s.store process).config.blockSize plan) read).2)
  | delete {process : ι} {keys : List OffloadKey} : Moves s (.delete process keys)
      (s.update process ((s.store process).delete s.db keys).2.1 ((s.store process).delete s.db keys).2.2)
  | restart {process : ι} {config : SegmentConfig} : Moves s (.restart process config)
      { s with
        store := Function.update s.store process (.init config)
        plans := Function.update s.plans process [] }

theorem moves_of_step {s t : SharedStore ι} {event : StoreEvent ι} (stepped : s.step event = some t) :
    Moves s event t := by
  cases event with
  | getLocations process keys =>
    cases stepped
    exact .getLocations
  | prepareStore process keys blockIds =>
    simp only [step] at stepped
    split at stepped
    · cases stepped
    · next returned =>
      cases stepped
      exact .prepareStore returned
  | completeStore process plan success =>
    simp only [step] at stepped
    split at stepped
    · next given =>
      cases stepped
      unfold SegmentStore.completeStore
      split
      · next nothing => exact .completeNothing given (by simpa using nothing)
      · next done =>
        obtain ⟨rfl, planned⟩ : success = true ∧ plan.entries ≠ [] := by simpa using done
        exact .completeStore given planned
    · cases stepped
  | completeRaised process plan read =>
    simp only [step] at stepped
    split at stepped
    · next given =>
      cases stepped
      exact .completeRaised given
    · cases stepped
  | delete process keys =>
    cases stepped
    exact .delete
  | restart process config =>
    cases stepped
    exact .restart

end SharedStore

end KVTiering.Model
