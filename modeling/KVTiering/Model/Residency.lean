import KVTiering.Data.Lists
import KVTiering.Model.SegmentStore
import Mathlib.Data.Finset.Card
import Mathlib.Data.Prod.Lex

/-! # Block residency

The residency tracker keeps, for every block it has heard of, where the block has copies, which sessions
own it and since when none of them has been active. Times are readings of a clock: any linear order with a
zero will do, and every method that reads the clock is given its readings. A loop over a set of keys updates
each of these keys once, so it is written as one update of all blocks.
-/

namespace KVTiering.Model

structure BlockResidencyState (T : Type) where
  key : OffloadKey
  cpuResident : Bool
  secondaryTiers : Finset String
  sessionIds : Finset String
  inflightTransfers : Dict (String × String) ℕ
  createdAt : T
  lastAccessAt : T
  idleSince : Option T
  accessCount : ℕ

namespace BlockResidencyState

variable {T : Type}

/-- The defaults of the fields. -/
def init (key : OffloadKey) (createdAt lastAccessAt : T) : BlockResidencyState T where
  key := key
  cpuResident := false
  secondaryTiers := ∅
  sessionIds := ∅
  inflightTransfers := .empty
  createdAt := createdAt
  lastAccessAt := lastAccessAt
  idleSince := none
  accessCount := 0

def isShared (state : BlockResidencyState T) : Bool := 1 < state.sessionIds.card

def hasSecondaryCopy (state : BlockResidencyState T) : Bool := state.secondaryTiers ≠ ∅

def hasInflightTransfer (state : BlockResidencyState T) : Bool := state.inflightTransfers.size ≠ 0

/-- `_has_active_session`, for a given set of active sessions. -/
def hasActiveSession (state : BlockResidencyState T) (activeSessions : Finset String) : Bool :=
  state.sessionIds ∩ activeSessions ≠ ∅

end BlockResidencyState

/-- `value or default`: a missing time and the time zero count as false. -/
def orElseTime {T : Type} [DecidableEq T] [Zero T] (value : Option T) (default : T) : T :=
  match value with
  | none => default
  | some time => if time = 0 then default else time

structure BlockResidencyTracker (T : Type) where
  maxEntries : ℕ
  blocks : Dict OffloadKey (BlockResidencyState T)
  sessionKeys : Dict String (Finset OffloadKey)
  activeSessions : Finset String
  maxEntries_pos : 0 < maxEntries

namespace BlockResidencyTracker

variable {T : Type} [LinearOrder T] [Zero T]

def init (maxEntries : ℕ) (maxEntries_pos : 0 < maxEntries) : BlockResidencyTracker T :=
  ⟨maxEntries, .empty, .empty, ∅, maxEntries_pos⟩

def getSessionKeys (t : BlockResidencyTracker T) (sessionId : String) : Finset OffloadKey :=
  (t.sessionKeys.get? sessionId).getD ∅

/-- `_get_or_create`, and what the caller then does to the block. -/
def touch (t : BlockResidencyTracker T) (key : OffloadKey) (now : T)
    (change : BlockResidencyState T → BlockResidencyState T) : BlockResidencyTracker T :=
  { t with blocks := t.blocks.set key (change ((t.blocks.get? key).getD (.init key now now))) }

def onSessionActive (t : BlockResidencyTracker T) (sessionId : String) (now : T) : BlockResidencyTracker T :=
  { t with
    activeSessions := insert sessionId t.activeSessions
    blocks := t.blocks.mapValues fun key state =>
      if key ∈ t.getSessionKeys sessionId then { state with idleSince := none, lastAccessAt := now }
      else state }

def onSessionIdle (t : BlockResidencyTracker T) (sessionId : String) (now : T) : BlockResidencyTracker T :=
  let activeSessions := t.activeSessions.erase sessionId
  { t with
    activeSessions := activeSessions
    blocks := t.blocks.mapValues fun key state =>
      if key ∈ t.getSessionKeys sessionId ∧ ¬ state.hasActiveSession activeSessions then
        { state with idleSince := some now }
      else state }

/-- One iteration of `record_access`. -/
def recordOne (sessionId : String) (now : T) (t : BlockResidencyTracker T) (key : OffloadKey) :
    BlockResidencyTracker T :=
  t.touch key now fun state =>
    { state with
      sessionIds := insert sessionId state.sessionIds
      lastAccessAt := now
      accessCount := state.accessCount + 1
      idleSince := if sessionId ∈ t.activeSessions then none else state.idleSince }

/-- The loop adds every key to the set that `setdefault` returns. -/
def recordAccess (t : BlockResidencyTracker T) (sessionId : String) (keys : List OffloadKey) (now : T) :
    BlockResidencyTracker T :=
  { keys.foldl (recordOne sessionId now) t with
    sessionKeys := t.sessionKeys.set sessionId (t.getSessionKeys sessionId ∪ keys.toFinset) }

/-- The keys that no session owns any more, and the tracker without the session. -/
def releaseSession (t : BlockResidencyTracker T) (sessionId : String) (now : T) :
    Finset OffloadKey × BlockResidencyTracker T :=
  let activeSessions := t.activeSessions.erase sessionId
  let keys := t.getSessionKeys sessionId
  let unreferenced := keys.filter fun key =>
    ((t.blocks.get? key).map fun state => state.sessionIds.erase sessionId) = some ∅
  (unreferenced,
    { t with
      activeSessions := activeSessions
      sessionKeys := t.sessionKeys.erase sessionId
      blocks := t.blocks.mapValues fun key state =>
        if key ∈ keys then
          let state := { state with sessionIds := state.sessionIds.erase sessionId }
          if state.sessionIds = ∅ then { state with idleSince := some (orElseTime state.idleSince now) }
          else if ¬ state.hasActiveSession activeSessions then
            { state with idleSince := some (orElseTime state.idleSince now) }
          else state
        else state })

def markCpuResident (t : BlockResidencyTracker T) (keys : List OffloadKey) (resident : Bool) (now : T) :
    BlockResidencyTracker T :=
  keys.foldl (fun t key => t.touch key now fun state => { state with cpuResident := resident }) t

def markSecondaryResident (t : BlockResidencyTracker T) (keys : List OffloadKey) (tier : String)
    (resident : Bool) (now : T) : BlockResidencyTracker T :=
  keys.foldl (fun t key => t.touch key now fun state =>
    { state with
      secondaryTiers :=
        if resident then insert tier state.secondaryTiers else state.secondaryTiers.erase tier }) t

def startTransfer (t : BlockResidencyTracker T) (keys : List OffloadKey) (source target : String) (now : T) :
    BlockResidencyTracker T :=
  keys.foldl (fun t key => t.touch key now fun state =>
    { state with
      inflightTransfers := state.inflightTransfers.set (source, target)
        ((state.inflightTransfers.get? (source, target)).getD 0 + 1) }) t

def finishTransfer (t : BlockResidencyTracker T) (keys : List OffloadKey) (source target : String) :
    BlockResidencyTracker T :=
  keys.foldl (fun t key =>
    match t.blocks.get? key with
    | none => t
    | some state =>
      let count := (state.inflightTransfers.get? (source, target)).getD 0
      let inflightTransfers :=
        if count ≤ 1 then state.inflightTransfers.erase (source, target)
        else state.inflightTransfers.set (source, target) (count - 1)
      { t with blocks := t.blocks.set key { state with inflightTransfers := inflightTransfers } }) t

def getIdleCpuCandidates (t : BlockResidencyTracker T) (limit : ℤ) (idleBefore : Option T) :
    List OffloadKey :=
  let candidates := t.blocks.values.filter fun state =>
    state.cpuResident && state.hasSecondaryCopy && !state.hasInflightTransfer &&
      !state.hasActiveSession t.activeSessions && !state.isShared && state.idleSince.isSome &&
      decide (∀ before ∈ idleBefore, ∀ since ∈ state.idleSince, since ≤ before)
  let candidates := sortedBy (fun state => toLex (orElseTime state.idleSince 0, state.lastAccessAt)) candidates
  (sliceTo candidates limit).map fun state => state.key

/-- From the coldest block to the hottest one. -/
def getCpuPressureCandidates (t : BlockResidencyTracker T) (limit : ℤ) (idleBefore : Option T)
    (includeActive : Bool) : List OffloadKey :=
  let candidates := t.blocks.values.filter fun state =>
    state.cpuResident && !state.hasInflightTransfer &&
      idleBefore.all (fun before => state.idleSince.any fun since => since ≤ before) &&
      (includeActive || !state.hasActiveSession t.activeSessions)
  let candidates := sortedBy (fun state =>
    toLex (state.hasActiveSession t.activeSessions, toLex (state.isShared, toLex (state.accessCount,
      toLex (state.idleSince.isNone, toLex (orElseTime state.idleSince state.lastAccessAt, state.lastAccessAt))))))
    candidates
  (sliceTo candidates limit).map fun state => state.key

def getInflightKeys (t : BlockResidencyTracker T) : Finset OffloadKey :=
  ((t.blocks.values.filter fun state => state.hasInflightTransfer).map fun state => state.key).toFinset

def hasSecondaryCopy (t : BlockResidencyTracker T) (key : OffloadKey) : Bool :=
  (t.blocks.get? key).any fun state => state.hasSecondaryCopy

/-- A block that is only remembered for its owners is not known. -/
def isKnown (t : BlockResidencyTracker T) (key : OffloadKey) : Bool :=
  (t.blocks.get? key).any fun state => state.cpuResident || state.hasSecondaryCopy || state.hasInflightTransfer

def hasIdleCpuBlocks (t : BlockResidencyTracker T) : Bool :=
  t.blocks.values.any fun state =>
    state.cpuResident && state.hasSecondaryCopy && !state.hasInflightTransfer &&
      !state.hasActiveSession t.activeSessions && !state.isShared && state.idleSince.isSome

def clearCpuResidency (t : BlockResidencyTracker T) : BlockResidencyTracker T :=
  { t with blocks := t.blocks.mapValues fun _ state => { state with cpuResident := false } }

/-- The number of entries removed, and the tracker without them. -/
def prune (t : BlockResidencyTracker T) : ℕ × BlockResidencyTracker T :=
  let excess := t.blocks.size - t.maxEntries
  if excess = 0 then (0, t)
  else
    let candidates := sortedBy (fun state => state.lastAccessAt) (t.blocks.values.filter fun state =>
      decide (state.sessionIds = ∅) && !state.cpuResident && !state.hasInflightTransfer)
    (min excess candidates.length,
      { t with blocks := t.blocks.eraseAll ((candidates.take excess).map fun state => state.key) })

end BlockResidencyTracker

/-- `snapshot` of the tracker; `secondaryBlocks` is a counter of tiers. -/
structure ResidencySnapshot where
  trackedBlocks : ℕ
  cpuBlocks : ℕ
  secondaryBlocks : Multiset String
  sharedBlocks : ℕ
  activeBlocks : ℕ
deriving DecidableEq

def BlockResidencyTracker.snapshot {T : Type} (t : BlockResidencyTracker T) : ResidencySnapshot where
  trackedBlocks := t.blocks.size
  cpuBlocks := t.blocks.values.countP fun state => state.cpuResident
  secondaryBlocks := t.blocks.values.foldl (fun counts state => counts + state.secondaryTiers.val) 0
  sharedBlocks := t.blocks.values.countP fun state => state.isShared
  activeBlocks := t.blocks.values.countP fun state => state.hasActiveSession t.activeSessions

/-- The calls that other components make to the tracker. -/
inductive ResidencyCall (T : Type) where
  | markCpuResident (keys : List OffloadKey) (resident : Bool) (now : T)
  | markSecondaryResident (keys : List OffloadKey) (tier : String) (resident : Bool) (now : T)
  | startTransfer (keys : List OffloadKey) (source target : String) (now : T)
  | finishTransfer (keys : List OffloadKey) (source target : String)
  | clearCpuResidency
  | prune

def BlockResidencyTracker.call {T : Type} [LinearOrder T] [Zero T] (t : BlockResidencyTracker T) :
    ResidencyCall T → BlockResidencyTracker T
  | .markCpuResident keys resident now => t.markCpuResident keys resident now
  | .markSecondaryResident keys tier resident now => t.markSecondaryResident keys tier resident now
  | .startTransfer keys source target now => t.startTransfer keys source target now
  | .finishTransfer keys source target => t.finishTransfer keys source target
  | .clearCpuResidency => t.clearCpuResidency
  | .prune => t.prune.2

/-- All calls that change the tracker: those of its session lifecycle manager, and the others. -/
inductive TrackerCall (T : Type) where
  | onSessionActive (sessionId : String) (now : T)
  | onSessionIdle (sessionId : String) (now : T)
  | recordAccess (sessionId : String) (keys : List OffloadKey) (now : T)
  | releaseSession (sessionId : String) (now : T)
  | direct (call : ResidencyCall T)

namespace BlockResidencyTracker

variable {T : Type} [LinearOrder T] [Zero T]

def step (t : BlockResidencyTracker T) : TrackerCall T → BlockResidencyTracker T
  | .onSessionActive sessionId now => t.onSessionActive sessionId now
  | .onSessionIdle sessionId now => t.onSessionIdle sessionId now
  | .recordAccess sessionId keys now => t.recordAccess sessionId keys now
  | .releaseSession sessionId now => (t.releaseSession sessionId now).2
  | .direct call => t.call call

/-- A new tracker after a sequence of calls. -/
def run (maxEntries : ℕ) (maxEntries_pos : 0 < maxEntries) (calls : List (TrackerCall T)) :
    BlockResidencyTracker T := calls.foldl step (init maxEntries maxEntries_pos)

end BlockResidencyTracker

end KVTiering.Model
