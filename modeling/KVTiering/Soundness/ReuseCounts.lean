import KVTiering.Soundness.LifecycleCoherence
import KVTiering.Soundness.SessionSteps

/-! # Counting reuse

A session counts a request that hits unless the last hit was the same request's. What it counts is the number
of times that the requests took turns: every request that has hit is counted, and it is counted once exactly if
it never hits again after another one.
-/

namespace KVTiering.Soundness

open Model

/-- No value comes back after another one. -/
def Uninterrupted (ids : List String) : Prop := ∀ id other, [id, other, id].Sublist ids → other = id

/-- A sublist that ends in another value ends before the last one. -/
theorem sublist_of_concat (values : List String) {ids : List String} {id last : String}
    (sublist : (values ++ [id]).Sublist (ids ++ [last])) (differ : id ≠ last) : (values ++ [id]).Sublist ids := by
  obtain ⟨front, back, split, inside, atEnd⟩ := List.sublist_append_iff.mp sublist
  rcases List.eq_nil_or_concat' back with rfl | ⟨init, final, rfl⟩
  · rwa [split, List.append_nil]
  · rw [← List.append_assoc] at split
    obtain ⟨_, same⟩ := List.append_inj' split rfl
    obtain rfl := List.singleton_inj.mp same
    have member := atEnd.subset (List.mem_append_right init (List.mem_singleton_self id))
    exact absurd (List.mem_singleton.mp member) differ

/-- One more value does not interrupt anything if it is new or repeats the last one. -/
theorem uninterrupted_concat {ids : List String} {id : String} :
    Uninterrupted (ids ++ [id]) ↔ Uninterrupted ids ∧ (ids.getLast? ≠ some id → id ∉ ids) := by
  constructor
  · refine fun whole => ⟨fun first other sublist => ?_, fun turn member => ?_⟩
    · exact whole first other (sublist.trans (List.sublist_append_left ids [id]))
    · rcases List.eq_nil_or_concat' ids with rfl | ⟨init, last, rfl⟩
      · cases member
      · have differ : last ≠ id := by simpa using turn
        have earlier : id ∈ init := by simpa [differ.symm] using member
        have between : [id, last, id].Sublist ((init ++ [last]) ++ [id]) :=
          ((List.singleton_sublist.mpr earlier).append (List.Sublist.refl [last])).append (List.Sublist.refl [id])
        exact differ (whole id last between)
  · rintro ⟨before, fresh⟩ first other sublist
    rcases eq_or_ne first id with rfl | differ
    · by_contra changed
      have earlier : [first, other].Sublist ids :=
        sublist_of_concat [first]
          ((List.sublist_append_left [first, other] [first]).trans sublist) changed
      have repeated : ids.getLast? = some first := by
        by_contra turn
        exact fresh turn (earlier.subset (List.mem_cons_self ..))
      rcases List.eq_nil_or_concat' ids with rfl | ⟨init, last, rfl⟩
      · cases repeated
      · obtain rfl : last = first := by simpa using repeated
        have inside : [last, other].Sublist init := sublist_of_concat [last] earlier changed
        exact changed (before last other (inside.append (List.Sublist.refl [last])))
    · exact before first other (sublist_of_concat [first, other] sublist differ)

namespace SessionLifecycleManager

open Model.SessionLifecycleManager

variable {T : Type}

/-- How the counters of a session relate to the hits recorded in it. -/
structure Counts (hits : List (String × ℤ)) (state : SessionKVState T) : Prop where
  all : (hits.map Prod.fst).toFinset.card ≤ state.reuseRequestCount
  once : state.reuseRequestCount = (hits.map Prod.fst).toFinset.card ↔ Uninterrupted (hits.map Prod.fst)
  last : state.lastReuseReqId = (hits.map Prod.fst).getLast?
  blocks : state.reuseHitBlocks = (hits.map fun hit => hit.2.toNat).sum

/-- A new session has counted nothing. -/
theorem counts_nil {state : SessionKVState T} (requests : state.reuseRequestCount = 0)
    (blocks : state.reuseHitBlocks = 0) (last : state.lastReuseReqId = none) : Counts [] state where
  all := Nat.zero_le _
  once := iff_of_true requests fun _ _ absent => nomatch absent
  last := last
  blocks := blocks

theorem Update.reuse {state state' : SessionKVState T} (update : Update state state') :
    state'.reuseRequestCount = state.reuseRequestCount ∧ state'.reuseHitBlocks = state.reuseHitBlocks ∧
      state'.lastReuseReqId = state.lastReuseReqId := by cases update <;> exact ⟨rfl, rfl, rfl⟩

theorem Counts.updated {hits : List (String × ℤ)} {state state' : SessionKVState T} (update : Update state state')
    (counts : Counts hits state) : Counts hits state' := by
  obtain ⟨requests, blocks, last⟩ := update.reuse
  constructor
  · rw [requests]
    exact counts.all
  · rw [requests]
    exact counts.once
  · rw [last]
    exact counts.last
  · rw [blocks]
    exact counts.blocks

/-- One more hit. -/
theorem Counts.hit {hits : List (String × ℤ)} {state : SessionKVState T} (counts : Counts hits state)
    (reqId : String) (numBlocks : ℤ) (now : T) :
    Counts (hits ++ [(reqId, numBlocks)]) (reuseHit state reqId numBlocks now) := by
  obtain ⟨all, once, last, blocks⟩ := counts
  have ids : (hits ++ [(reqId, numBlocks)]).map Prod.fst = hits.map Prod.fst ++ [reqId] := by simp
  have distinct : (hits.map Prod.fst ++ [reqId]).toFinset = insert reqId (hits.map Prod.fst).toFinset := by
    rw [List.toFinset_append, Finset.union_comm]
    rfl
  have lastMember : state.lastReuseReqId = some reqId → reqId ∈ (hits.map Prod.fst).toFinset := by
    intro repeated
    rw [List.mem_toFinset]
    exact List.mem_of_getLast? (last.symm.trans repeated)
  constructor
  · rw [ids, distinct, reuseHit]
    dsimp only
    split
    · exact (Finset.card_insert_le _ _).trans (Nat.add_le_add_right all 1)
    · next repeated => rwa [Finset.insert_eq_of_mem (lastMember (not_not.mp repeated))]
  · rw [ids, distinct, uninterrupted_concat, ← once, ← last, reuseHit]
    dsimp only
    split
    · next turn =>
      by_cases known : reqId ∈ (hits.map Prod.fst).toFinset
      · -- the request comes back: it is counted again
        rw [Finset.insert_eq_of_mem known]
        rw [List.mem_toFinset] at known
        exact iff_of_false (by omega) fun ⟨_, fresh⟩ => fresh turn known
      · rw [Finset.card_insert_of_notMem known]
        rw [List.mem_toFinset] at known
        simp [known]
    · next repeated =>
      rw [Finset.insert_eq_of_mem (lastMember (not_not.mp repeated)), Nat.add_zero]
      exact (and_iff_left fun turn => absurd turn repeated).symm
  · rw [ids, List.getLast?_concat]
    rfl
  · rw [List.map_append, List.sum_append, ← blocks]
    simp [reuseHit]

variable [LinearOrder T] [Zero T] [One T]

/-- The hit that a call records in a session. -/
def hitOf (m : SessionLifecycleManager T) (sessionId : String) : LifecycleCall T → List (String × ℤ)
  | .recordReuseHit reqContext numBlocks _ =>
    if (m.getByReq reqContext).map (fun state => state.sessionId) = some sessionId then
      [(reqContext.reqId, numBlocks)]
    else []
  | _ => []

variable [Add T]

/-- One more call, and the hits recorded in a session since it was created. -/
def observe (sessionId : String) (acc : SessionLifecycleManager T × List (String × ℤ)) (call : LifecycleCall T) :
    SessionLifecycleManager T × List (String × ℤ) :=
  let m := acc.1.call call
  (m, if m.sessions.contains sessionId then acc.2 ++ hitOf acc.1 sessionId call else [])

/-- The hits recorded in a session since it was created, oldest first. -/
def hits (config : LifecycleConfig T) (sessionId : String) (calls : List (LifecycleCall T)) : List (String × ℤ) :=
  (calls.foldl (observe sessionId) (init config, [])).2

theorem observe_fst (config : LifecycleConfig T) (sessionId : String) (calls : List (LifecycleCall T)) :
    (calls.foldl (observe sessionId) (init config, [])).1 = after config calls := by
  induction calls using List.reverseRecOn with
  | nil => rfl
  | append_singleton calls call ih =>
    rw [List.foldl_concat, after, List.foldl_concat, observe, ih]
    rfl

theorem hits_concat (config : LifecycleConfig T) (sessionId : String) (calls : List (LifecycleCall T))
    (call : LifecycleCall T) : hits config sessionId (calls ++ [call]) =
      if ((after config calls).call call).sessions.contains sessionId then
        hits config sessionId calls ++ hitOf (after config calls) sessionId call
      else [] := by
  rw [hits, List.foldl_concat, observe, observe_fst]
  rfl

/-- After every sequence of calls, a session that is there counts its hits, and none are kept of one that is not. -/
theorem counts_after (config : LifecycleConfig T) (sessionId : String) (calls : List (LifecycleCall T)) :
    (∀ state, (after config calls).sessions.get? sessionId = some state →
      Counts (hits config sessionId calls) state) ∧
      ((after config calls).sessions.get? sessionId = none → hits config sessionId calls = []) := by
  induction calls using List.reverseRecOn with
  | nil => exact ⟨fun _ absent => (nomatch absent), fun _ => rfl⟩
  | append_singleton calls call ih =>
    obtain ⟨counted, nothing⟩ := ih
    have consistent := consistent_after config calls
    have next : after config (calls ++ [call]) = (after config calls).call call := by
      rw [after, List.foldl_concat, after]
    rw [next, hits_concat]
    refine ⟨fun state found => ?_, fun absent => if_neg (by simp [Dict.contains, absent])⟩
    have present : ((after config calls).call call).sessions.contains sessionId = true := by
      simp [Dict.contains, found]
    rw [if_pos present]
    by_cases hit : ∃ reqContext numBlocks clock, call = .recordReuseHit reqContext numBlocks clock
    · obtain ⟨reqContext, numBlocks, clock, rfl⟩ := hit
      change ((after config calls).recordReuseHit reqContext numBlocks clock).sessions.get? sessionId = _ at found
      rw [recordReuseHit_spec consistent.stored] at found
      simp only [hitOf]
      split at found
      · next same =>
        obtain ⟨old, known, rfl⟩ := Option.map_eq_some_iff.mp found
        rw [if_pos same]
        exact (counted old known).hit reqContext.reqId numBlocks (clock 0)
      · next other =>
        rw [if_neg other, List.append_nil]
        exact counted state found
    · have noHit : hitOf (after config calls) sessionId call = [] := by
        cases call with
        | recordReuseHit reqContext numBlocks clock => exact absurd ⟨reqContext, numBlocks, clock, rfl⟩ hit
        | _ => rfl
      have evolves := evolves_call consistent.stored call fun reqContext numBlocks clock same =>
        hit ⟨reqContext, numBlocks, clock, same⟩
      rw [noHit, List.append_nil]
      refine (evolves sessionId).invariant counted (fun absent hasStableId reqId now => ?_)
        (fun _ _ => Counts.updated) state found
      rw [nothing absent]
      exact counts_nil rfl rfl rfl

/-- Each request that has hit in a session is counted once, and the blocks of all hits are. -/
def CountedOnce (state : SessionKVState T) (hits : List (String × ℤ)) : Prop :=
  state.reuseRequestCount = (hits.map Prod.fst).toFinset.card ∧
    state.reuseHitBlocks = (hits.map fun hit => hit.2.toNat).sum

/-- The requests of a session are counted once if and only if none of them hits again after another one. -/
theorem reuse_counted_once_iff (config : LifecycleConfig T) (calls : List (LifecycleCall T)) (sessionId : String)
    (state : SessionKVState T) (found : (after config calls).sessions.get? sessionId = some state) :
    CountedOnce state (hits config sessionId calls) ↔
      Uninterrupted ((hits config sessionId calls).map Prod.fst) := by
  have counts := (counts_after config sessionId calls).1 state found
  rw [CountedOnce, counts.once]
  exact and_iff_left counts.blocks

/-- Two requests of a conversation hit, one after the other. -/
def successiveHits : List (LifecycleCall ℤ) :=
  [.onNewRequest (conversation "r1" "s1") false fun _ => 0,
    .recordReuseHit (conversation "r1" "s1") 2 fun _ => 1,
    .recordReuseHit (conversation "r1" "s1") (-1) fun _ => 2,
    .onNewRequest (conversation "r2" "s1") false fun _ => 3,
    .recordReuseHit (conversation "r2" "s1") 3 fun _ => 4]

theorem reuse_counted_once_successive : ∃ state,
    (after tenUnits successiveHits).sessions.get? "s1" = some state ∧
      (CountedOnce state (hits tenUnits "s1" successiveHits) ↔
        Uninterrupted ((hits tenUnits "s1" successiveHits).map Prod.fst)) := by
  have present : ((after tenUnits successiveHits).sessions.get? "s1").isSome := by decide
  obtain ⟨state, found⟩ := Option.isSome_iff_exists.mp present
  exact ⟨state, found, reuse_counted_once_iff tenUnits successiveHits "s1" state found⟩

/-- Two requests of a conversation hit in turn. -/
def alternatingHits : List (LifecycleCall ℤ) :=
  [.onNewRequest (conversation "r1" "s1") false fun _ => 0,
    .onNewRequest (conversation "r2" "s1") false fun _ => 1,
    .recordReuseHit (conversation "r1" "s1") 2 fun _ => 2,
    .recordReuseHit (conversation "r2" "s1") 1 fun _ => 3,
    .recordReuseHit (conversation "r1" "s1") 4 fun _ => 4]

/-- The first request is counted twice. -/
theorem reuse_counted_once_alternating : ¬ ∀ state,
    (after tenUnits alternatingHits).sessions.get? "s1" = some state →
      CountedOnce state (hits tenUnits "s1" alternatingHits) := by
  have counted : ((after tenUnits alternatingHits).sessions.get? "s1").map (fun state => state.reuseRequestCount) =
      some 3 := by decide
  have distinct : ((hits tenUnits "s1" alternatingHits).map Prod.fst).toFinset.card = 2 := by decide
  obtain ⟨state, found, count⟩ := Option.map_eq_some_iff.mp counted
  intro once
  have two := (once state found).1
  omega

end SessionLifecycleManager

end KVTiering.Soundness
