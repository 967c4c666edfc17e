import Mathlib.Data.List.Induction

/-! # Maps whose entries are written once

Several writers share a map. What is published for a key that has an entry is ignored, and an entry stays until it
is removed.
-/

namespace KVTiering

variable {κ ν : Type*} [DecidableEq κ]

/-- An entry of a batch is published only if its key has no entry; the first entry of a key wins. -/
inductive MapEvent (κ ν : Type*) where
  | publish (entries : List (κ × ν))
  | remove (keys : List κ)

namespace MapEvent

def apply (contents : κ → Option ν) : MapEvent κ ν → κ → Option ν
  | .publish entries, key => (contents key).or ((entries.find? fun entry => entry.1 = key).map Prod.snd)
  | .remove keys, key => if key ∈ keys then none else contents key

/-- The map after some events. -/
def applyAll (contents : κ → Option ν) (events : List (MapEvent κ ν)) : κ → Option ν := events.foldl apply contents

@[simp] theorem applyAll_nil (contents : κ → Option ν) : applyAll contents [] = contents := rfl

@[simp] theorem applyAll_cons (contents : κ → Option ν) (event : MapEvent κ ν) (rest : List (MapEvent κ ν)) :
    applyAll contents (event :: rest) = applyAll (apply contents event) rest := rfl

end MapEvent

end KVTiering
