import Mathlib.Data.List.Induction
import Mathlib.Logic.Function.Basic

/-! # Copying cells between two memories

A memory is a function from addresses to cells. A copy is a list of moves, each naming a destination
in the memory written and a source in another memory, carried out in order. When every destination
has one source, the order does not matter for what the copy leaves behind, and copying out and back
restores what was read.
-/

namespace KVTiering

variable {α β γ : Type*}

/-- Carry out the moves in order: each writes at its first address what `source` has at the second. -/
def copyCells [DecidableEq α] (source : β → γ) (moves : List (α × β)) (memory : α → γ) : α → γ :=
  moves.foldl (fun written move => Function.update written move.1 (source move.2)) memory

/-- No address is written from two different ones. -/
def SingleSource (moves : List (α × β)) : Prop :=
  ∀ ⦃destination : α⦄ ⦃source other : β⦄, (destination, source) ∈ moves → (destination, other) ∈ moves →
    source = other

variable [DecidableEq α]

@[simp] theorem copyCells_nil (source : β → γ) (memory : α → γ) : copyCells source [] memory = memory := rfl

@[simp] theorem copyCells_cons (source : β → γ) (move : α × β) (rest : List (α × β)) (memory : α → γ) :
    copyCells source (move :: rest) memory =
      copyCells source rest (Function.update memory move.1 (source move.2)) := rfl

theorem copyCells_append (source : β → γ) (first second : List (α × β)) (memory : α → γ) :
    copyCells source (first ++ second) memory = copyCells source second (copyCells source first memory) :=
  List.foldl_append

/-- Addresses that no move writes keep their cell. -/
theorem copyCells_frame (source : β → γ) {moves : List (α × β)} (memory : α → γ) {address : α}
    (outside : ∀ move ∈ moves, move.1 ≠ address) : copyCells source moves memory address = memory address := by
  induction moves using List.reverseRecOn with
  | nil => rfl
  | append_singleton before move ih =>
    have kept : address ≠ move.1 := (outside move (by simp)).symm
    rw [copyCells_append, copyCells_cons, copyCells_nil, Function.update_of_ne kept]
    exact ih fun move member => outside move (by simp [member])

/-- The last move into an address decides its cell. -/
theorem copyCells_of_mem (source : β → γ) {moves : List (α × β)} (single : SingleSource moves)
    (memory : α → γ) {destination : α} {origin : β} (member : (destination, origin) ∈ moves) :
    copyCells source moves memory destination = source origin := by
  induction moves using List.reverseRecOn with
  | nil => simp at member
  | append_singleton before move ih =>
    rw [copyCells_append, copyCells_cons, copyCells_nil]
    by_cases last : destination = move.1
    · have same : origin = move.2 := single member (by subst last; simp)
      rw [last, Function.update_self, same]
    · have earlier : (destination, origin) ∈ before := by
        rcases List.mem_append.mp member with found | found
        · exact found
        · rw [List.mem_singleton] at found
          exact absurd (congrArg Prod.fst found) last
      rw [Function.update_of_ne last]
      exact ih (fun _ _ _ left right => single (List.mem_append_left _ left) (List.mem_append_left _ right)) earlier

/-- Cells copied out and copied back are restored, whatever became of them in between. -/
theorem copyCells_roundTrip [DecidableEq β] (original changed : α → γ) (buffer : β → γ) {out : List (β × α)}
    {back : List (α × β)} (singleOut : SingleSource out) (singleBack : SingleSource back)
    {origin target : α} {slot : β} (stored : (slot, origin) ∈ out) (loaded : (target, slot) ∈ back) :
    copyCells (copyCells original out buffer) back changed target = original origin := by
  rw [copyCells_of_mem _ singleBack _ loaded, copyCells_of_mem _ singleOut _ stored]

end KVTiering
