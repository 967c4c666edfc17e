import KVTiering.Model.Transfer

/-! # One segment store on its own

A process that alone uses a root directory calls the operations of its store one after the other. The
plans it completes are any plans, and a load may be given any locations or look them up itself.
-/

namespace KVTiering.Model

/-- The calls on one store. -/
inductive StoreCall where
  | getLocations (keys : List OffloadKey)
  | prepareStore (keys : List OffloadKey) (blockIds : List ℕ)
  /-- `prepare_store` looks its keys up, and its transaction raises. -/
  | prepareRaised (keys : List OffloadKey)
  | completeStore (plan : SegmentStorePlan) (success : Bool)
  /-- `complete_store` raises after its commit, having read back some of the rows. -/
  | completeRaised (plan : SegmentStorePlan) (read : List OffloadKey)
  | loadMany (viewSize maxBuffers : ℕ) (keys : List OffloadKey) (blockIds : List ℕ)
      (locations : Option (List (Option SegmentLocation))) (failed : Bool)
  | delete (keys : List OffloadKey)

/-- The tables and the only store that uses them. -/
structure SoleStore where
  db : Database
  store : SegmentStore

namespace SoleStore

/-- A store opened on tables that may already hold rows. -/
def init (db : Database) (config : SegmentConfig) : SoleStore := ⟨db, .init config⟩

/-- The cache that `get_locations` leaves behind. -/
def lookUp (s : SoleStore) (keys : List OffloadKey) : SoleStore :=
  { s with store := (s.store.getLocations s.db keys).2 }

def call (s : SoleStore) : StoreCall → SoleStore
  | .getLocations keys => s.lookUp keys
  | .prepareStore keys blockIds =>
    match s.store.prepareStore s.db keys blockIds with
    | .error _ => s
    | .ok (_, db, store) => ⟨db, store⟩
  | .prepareRaised keys => s.lookUp keys
  | .completeStore plan success =>
    let (db, store) := s.store.completeStore s.db plan success
    ⟨db, store⟩
  | .completeRaised plan read =>
    lookUp { s with db := s.db.indexPlan s.store.config.blockSize plan } read
  | .loadMany viewSize maxBuffers keys blockIds locations failed =>
    let (db, store) := s.store.loadMany s.db viewSize maxBuffers keys blockIds locations failed
    ⟨db, store⟩
  | .delete keys =>
    let (_, db, store) := s.store.delete s.db keys
    ⟨db, store⟩

/-- The state after a sequence of calls. -/
def after (s : SoleStore) (calls : List StoreCall) : SoleStore := calls.foldl call s

end SoleStore

end KVTiering.Model
