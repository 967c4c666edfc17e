import Mathlib.Logic.Function.Basic
import Mathlib.Order.Basic
import Mathlib.Data.Nat.Basic

/-! # Append-only allocation in numbered containers

Space is handed out in byte extents of numbered containers (files, segments). A `Frontier` gives
each stream of allocations the container it currently appends to and the first free byte there.
Its two fields are what makes appending safe: streams never share their current container, and
every current container is older than `next`, the number of the next container to open. Whatever
the frontier covers stays covered, and an appended extent is disjoint from all that was covered.
-/

namespace KVTiering

/-- The bytes `[start, start + length)` of a numbered container. -/
structure Extent where
  container : ℕ
  start : ℕ
  length : ℕ
deriving DecidableEq, Repr

namespace Extent

def stop (e : Extent) : ℕ := e.start + e.length

/-- Different containers, or byte ranges that do not meet. -/
def Disjoint (a b : Extent) : Prop :=
  a.container ≠ b.container ∨ a.stop ≤ b.start ∨ b.stop ≤ a.start

instance (a b : Extent) : Decidable (a.Disjoint b) := inferInstanceAs (Decidable (_ ∨ _ ∨ _))

theorem Disjoint.symm {a b : Extent} (apart : a.Disjoint b) : b.Disjoint a := by
  rcases apart with containers | before | after
  · exact .inl (Ne.symm containers)
  · exact .inr (.inr before)
  · exact .inr (.inl after)

end Extent

/-- Where each stream of allocations appends next. -/
structure Frontier (ι : Type*) where
  cursor : ι → Option (ℕ × ℕ)
  next : ℕ
  fresh : ∀ i c, cursor i = some c → c.1 < next
  separate : ∀ i j c d, cursor i = some c → cursor j = some d → c.1 = d.1 → i = j

namespace Frontier

variable {ι : Type*}

/-- The extent is in an opened container and ends before whoever appends there. -/
def Covers (f : Frontier ι) (e : Extent) : Prop :=
  e.container < f.next ∧ ∀ i c, f.cursor i = some c → c.1 = e.container → e.stop ≤ c.2

/-- No stream appends anywhere yet; containers below `next` are full. -/
def closed (next : ℕ) : Frontier ι where
  cursor _ := none
  next := next
  fresh := by simp
  separate := by simp

/-- Opening more containers than needed does no harm. -/
def skipTo (f : Frontier ι) (next : ℕ) (later : f.next ≤ next) : Frontier ι where
  cursor := f.cursor
  next := next
  fresh i c at_i := (f.fresh i c at_i).trans_le later
  separate := f.separate

theorem Covers.skipTo {f : Frontier ι} {e : Extent} (covered : f.Covers e) (next : ℕ)
    (later : f.next ≤ next) : (f.skipTo next later).Covers e :=
  ⟨covered.1.trans_le later, covered.2⟩

/-- The bytes just taken meet nothing that was covered. -/
theorem Covers.disjoint {f : Frontier ι} {e : Extent} (covered : f.Covers e) (i : ι) (c : ℕ × ℕ)
    (at_i : f.cursor i = some c) (length : ℕ) : Extent.Disjoint ⟨c.1, c.2, length⟩ e := by
  by_cases shared : c.1 = e.container
  · exact .inr (.inr (covered.2 i c at_i shared))
  · exact .inl shared

variable [DecidableEq ι]

/-- Let stream `i` append from `offset` on in a container that no stream has. -/
def place (f : Frontier ι) (i : ι) (container offset : ℕ) (old : container < f.next)
    (unused : ∀ j c, f.cursor j = some c → c.1 ≠ container) : Frontier ι where
  cursor := Function.update f.cursor i (some (container, offset))
  next := f.next
  fresh := by
    intro j c at_j
    rcases eq_or_ne j i with rfl | differ
    · obtain rfl : (container, offset) = c := by simpa using at_j
      exact old
    · exact f.fresh j c (by simpa [differ] using at_j)
  separate := by
    intro j k c d at_j at_k shared
    by_cases first : j = i <;> by_cases second : k = i
    · rw [first, second]
    · subst first
      obtain rfl : (container, offset) = c := by simpa using at_j
      exact absurd shared.symm (unused k d (by simpa [second] using at_k))
    · subst second
      obtain rfl : (container, offset) = d := by simpa using at_k
      exact absurd shared (unused j c (by simpa [first] using at_j))
    · exact f.separate j k c d (by simpa [first] using at_j) (by simpa [second] using at_k) shared

/-- Give stream `i` the next container, empty. -/
def renew (f : Frontier ι) (i : ι) : Frontier ι :=
  (f.skipTo (f.next + 1) (Nat.le_succ _)).place i f.next 0 (Nat.lt_succ_self _)
    (fun j c at_j => (f.fresh j c at_j).ne)

@[simp] theorem renew_next (f : Frontier ι) (i : ι) : (f.renew i).next = f.next + 1 := rfl

@[simp] theorem renew_cursor (f : Frontier ι) (i : ι) :
    (f.renew i).cursor = Function.update f.cursor i (some (f.next, 0)) := rfl

theorem Covers.renew {f : Frontier ι} {e : Extent} (covered : f.Covers e) (i : ι) :
    (f.renew i).Covers e := by
  refine ⟨covered.1.trans (Nat.lt_succ_self _), ?_⟩
  intro j c at_j shared
  rcases eq_or_ne j i with rfl | differ
  · obtain rfl : (f.next, 0) = c := by simpa using at_j
    exact absurd shared covered.1.ne'
  · exact covered.2 j c (by simpa [differ] using at_j) shared

/-- Stream `i` takes the next `length` bytes of its container. -/
def advance (f : Frontier ι) (i : ι) (c : ℕ × ℕ) (at_i : f.cursor i = some c) (length : ℕ) :
    Frontier ι where
  cursor := Function.update f.cursor i (some (c.1, c.2 + length))
  next := f.next
  fresh := by
    intro j d at_j
    rcases eq_or_ne j i with rfl | differ
    · obtain rfl : (c.1, c.2 + length) = d := by simpa using at_j
      exact f.fresh j c at_i
    · exact f.fresh j d (by simpa [differ] using at_j)
  separate := by
    -- only the offset of stream `i` changes, so its container is still its own
    have container : ∀ j d, Function.update f.cursor i (some (c.1, c.2 + length)) j = some d →
        ∃ d', f.cursor j = some d' ∧ d'.1 = d.1 := by
      intro j d at_j
      by_cases same : j = i
      · subst same
        obtain rfl : (c.1, c.2 + length) = d := by simpa using at_j
        exact ⟨c, at_i, rfl⟩
      · exact ⟨d, by simpa [same] using at_j, rfl⟩
    intro j k d e at_j at_k shared
    obtain ⟨d', before_j, same_j⟩ := container j d at_j
    obtain ⟨e', before_k, same_k⟩ := container k e at_k
    exact f.separate j k d' e' before_j before_k (by rw [same_j, same_k, shared])

@[simp] theorem advance_next (f : Frontier ι) (i : ι) (c : ℕ × ℕ) (at_i : f.cursor i = some c)
    (length : ℕ) : (f.advance i c at_i length).next = f.next := rfl

@[simp] theorem advance_cursor (f : Frontier ι) (i : ι) (c : ℕ × ℕ) (at_i : f.cursor i = some c)
    (length : ℕ) : (f.advance i c at_i length).cursor =
      Function.update f.cursor i (some (c.1, c.2 + length)) := rfl

theorem Covers.advance {f : Frontier ι} {e : Extent} (covered : f.Covers e) (i : ι) (c : ℕ × ℕ)
    (at_i : f.cursor i = some c) (length : ℕ) : (f.advance i c at_i length).Covers e := by
  refine ⟨covered.1, ?_⟩
  intro j d at_j shared
  by_cases same : j = i
  · subst same
    obtain rfl : (c.1, c.2 + length) = d := by simpa using at_j
    exact (covered.2 j c at_i shared).trans (Nat.le_add_right _ _)
  · exact covered.2 j d (by simpa [same] using at_j) shared

/-- The bytes just taken are covered from now on. -/
theorem covers_advanced (f : Frontier ι) (i : ι) (c : ℕ × ℕ) (at_i : f.cursor i = some c)
    (length : ℕ) : (f.advance i c at_i length).Covers ⟨c.1, c.2, length⟩ := by
  refine ⟨f.fresh i c at_i, ?_⟩
  intro j d at_j shared
  by_cases same : j = i
  · subst same
    obtain rfl : (c.1, c.2 + length) = d := by simpa using at_j
    exact le_rfl
  · have before : f.cursor j = some d := by simpa [same] using at_j
    exact absurd (f.separate j i d c before at_i shared) same

end Frontier

end KVTiering
