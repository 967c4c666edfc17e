import Mathlib.Data.List.Lemmas
import Mathlib.Data.List.Sort

/-! # Slices and sorted lists

The list operations of the source that have no counterpart under a single name: cutting a list into
slices of bounded length, sorting by a key, and taking an initial part of possibly negative length.
-/

namespace KVTiering

/-- `[values[start : start + size] for start in range(0, len(values), size)]`. -/
def slices {α : Type*} (size : ℕ) (values : List α) : List (List α) :=
  (List.range ((values.length + size - 1) / size)).map fun i => (values.drop (i * size)).take size

theorem slices_flatten {α : Type*} {size : ℕ} (positive : 0 < size) (values : List α) :
    (slices size values).flatten = values := by
  have upTo : ∀ n, ((List.range n).map fun i => (values.drop (i * size)).take size).flatten =
      values.take (n * size) := by
    intro n
    induction n with
    | zero => simp
    | succ n ih =>
      rw [List.range_succ, List.map_append, List.flatten_append, ih]
      simp only [List.map_cons, List.map_nil, List.flatten_cons, List.flatten_nil, List.append_nil]
      rw [← List.take_add, Nat.succ_mul]
  rw [slices, upTo]
  apply List.take_of_length_le
  have whole := Nat.lt_div_mul_add (a := values.length + size - 1) positive
  omega

theorem mem_slice_iff {α : Type*} {size : ℕ} (positive : 0 < size) {values : List α} {value : α} :
    (∃ slice ∈ slices size values, value ∈ slice) ↔ value ∈ values := by
  rw [← List.mem_flatten, slices_flatten positive]

/-- `sorted(values, key=key)`, which keeps the order of values with equal keys. -/
def sortedBy {α β : Type*} [LinearOrder β] (key : α → β) (values : List α) : List α :=
  values.insertionSort fun a b => key a ≤ key b

@[simp] theorem mem_sortedBy {α β : Type*} [LinearOrder β] {key : α → β} {values : List α} {value : α} :
    value ∈ sortedBy key values ↔ value ∈ values := List.mem_insertionSort _

theorem perm_sortedBy {α β : Type*} [LinearOrder β] (key : α → β) (values : List α) :
    (sortedBy key values).Perm values := List.perm_insertionSort _ _

theorem pairwise_sortedBy {α β : Type*} [LinearOrder β] (key : α → β) (values : List α) :
    (sortedBy key values).Pairwise fun a b => key a ≤ key b := by
  have total : Std.Total fun a b : α => key a ≤ key b := ⟨fun a b => le_total (key a) (key b)⟩
  have transitive : IsTrans α fun a b => key a ≤ key b := ⟨fun _ _ _ => le_trans⟩
  exact List.pairwise_insertionSort _ values

/-- What is cut off a sorted list is nowhere below what is kept. -/
theorem le_of_mem_take_of_mem_drop {α β : Type*} [LinearOrder β] {key : α → β} {values : List α} {n : ℕ}
    {a b : α} (early : a ∈ (sortedBy key values).take n) (late : b ∈ (sortedBy key values).drop n) :
    key a ≤ key b := by
  have sorted := pairwise_sortedBy key values
  rw [← List.take_append_drop n (sortedBy key values), List.pairwise_append] at sorted
  exact sorted.2.2 a early b late

/-- Among sorted values a new one goes before the first that is not below it, whichever of them are kept. -/
theorem filter_orderedInsert {α : Type*} {r : α → α → Prop} [DecidableRel r] [IsTrans α r] (keep : α → Bool)
    (value : α) {values : List α} (sorted : values.Pairwise r) : (values.orderedInsert r value).filter keep =
      if keep value then (values.filter keep).orderedInsert r value else values.filter keep := by
  induction values with
  | nil => cases kept : keep value <;> simp [kept]
  | cons head rest ih =>
    obtain ⟨below, sorted⟩ := List.pairwise_cons.mp sorted
    by_cases first : r value head
    · have all : ∀ other ∈ (head :: rest).filter keep, r value other := by
        intro other member
        rcases List.mem_cons.mp (List.mem_of_mem_filter member) with rfl | later
        · exact first
        · exact trans_of r first (below other later)
      rw [List.orderedInsert_cons_of_le _ _ first, List.filter_cons]
      split
      · cases kept : (head :: rest).filter keep with
        | nil => rfl
        | cons next others =>
          rw [List.orderedInsert_cons_of_le]
          exact all next (by rw [kept]; exact List.mem_cons_self ..)
      · rfl
    · rw [List.orderedInsert_of_not_le _ _ first, List.filter_cons, List.filter_cons, ih sorted]
      split
      · split
        · rw [List.orderedInsert_of_not_le _ _ first]
        · rfl
      · rfl

/-- Sorting is stable, so it does not matter whether values are left out before or after. -/
theorem sortedBy_filter {α β : Type*} [LinearOrder β] (key : α → β) (keep : α → Bool) (values : List α) :
    sortedBy key (values.filter keep) = (sortedBy key values).filter keep := by
  induction values with
  | nil => rfl
  | cons head rest ih =>
    have transitive : IsTrans α fun a b => key a ≤ key b := ⟨fun _ _ _ => le_trans⟩
    have inserted := filter_orderedInsert keep head (pairwise_sortedBy key rest)
    change _ = ((sortedBy key rest).orderedInsert (fun a b => key a ≤ key b) head).filter keep
    rw [inserted, ← ih, List.filter_cons]
    split
    · rfl
    · rfl

/-- Values in the order of a flag are those without it and then those with it. -/
theorem filter_append_of_flag {α : Type*} {flag : α → Bool} {values : List α}
    (sorted : values.Pairwise fun a b => flag a ≤ flag b) :
    (values.filter fun a => !flag a) ++ values.filter flag = values := by
  induction values with
  | nil => rfl
  | cons head rest ih =>
    obtain ⟨below, sorted⟩ := List.pairwise_cons.mp sorted
    cases flagged : flag head with
    | false => simp [flagged, ih sorted]
    | true =>
      have all : ∀ other ∈ rest, flag other = true := fun other member =>
        Bool.eq_true_of_true_le (flagged ▸ below other member)
      have none : rest.filter (fun a => !flag a) = [] := by
        rw [List.filter_eq_nil_iff]
        intro other member
        simp [all other member]
      rw [List.filter_cons, List.filter_cons, if_neg (by simp [flagged]), if_pos flagged, none,
        List.filter_eq_self.mpr all, List.nil_append]

/-- `lists[i].append(x)`. -/
theorem flatten_modify_perm {α : Type*} (lists : List (List α)) (i : ℕ) (x : α)
    (inside : i < lists.length) : (lists.modify i (· ++ [x])).flatten.Perm (x :: lists.flatten) := by
  induction lists generalizing i with
  | nil => simp at inside
  | cons head rest ih =>
    cases i with
    | zero =>
      simp only [List.modify_zero_cons, List.flatten_cons, List.append_assoc, List.singleton_append]
      exact List.perm_middle
    | succ i =>
      simp only [List.modify_succ_cons, List.flatten_cons]
      exact ((ih i (by simpa using inside)).append_left head).trans List.perm_middle

/-- `values[:limit]`, where a negative limit counts from the end. -/
def sliceTo {α : Type*} (values : List α) (limit : ℤ) : List α :=
  if 0 ≤ limit then values.take limit.toNat else values.take (values.length - (-limit).toNat)

theorem mem_of_mem_sliceTo {α : Type*} {values : List α} {limit : ℤ} {value : α}
    (member : value ∈ sliceTo values limit) : value ∈ values := by
  unfold sliceTo at member
  split at member <;> exact List.mem_of_mem_take member

theorem sliceTo_of_length_le {α : Type*} {values : List α} {limit : ℤ} (room : values.length ≤ limit) :
    sliceTo values limit = values := by
  rw [sliceTo, if_pos (by omega), List.take_of_length_le (by omega)]

theorem sliceTo_isPrefix {α : Type*} (values : List α) {limit : ℤ} (nonneg : 0 ≤ limit) :
    sliceTo values limit <+: values := by
  rw [sliceTo, if_pos nonneg]
  exact List.take_prefix _ _

theorem sliceTo_prefix_sliceTo {α : Type*} (values : List α) {limit larger : ℤ} (nonneg : 0 ≤ limit)
    (more : limit ≤ larger) : sliceTo values limit <+: sliceTo values larger := by
  rw [sliceTo, sliceTo, if_pos nonneg, if_pos (nonneg.trans more)]
  exact List.take_prefix_take_left (by omega)

/-- A list is split at its last occurrence of an element in one way. -/
theorem append_cons_inj {α : Type*} {x : α} {first first' last last' : List α} (absent : x ∉ last)
    (absent' : x ∉ last') (same : first ++ x :: last = first' ++ x :: last') : first = first' ∧ last = last' := by
  rcases List.append_eq_append_iff.mp same with ⟨middle, rfl, rest⟩ | ⟨middle, rfl, rest⟩
  · cases middle with
    | nil => exact ⟨(List.append_nil first).symm, (List.cons.inj rest).2⟩
    | cons y middle =>
      obtain ⟨rfl, rfl⟩ := List.cons.inj rest
      simp at absent
  · cases middle with
    | nil => exact ⟨List.append_nil first', (List.cons.inj rest).2.symm⟩
    | cons y middle =>
      obtain ⟨rfl, rfl⟩ := List.cons.inj rest
      simp at absent'

/-- Setting some entries of a list. -/
theorem getElem?_foldl_set {α : Type*} (indices : List ℕ) (value : ℕ → α) (values : List α) (i : ℕ) :
    (indices.foldl (fun values index => values.set index (value index)) values)[i]? =
      if i ∈ indices ∧ i < values.length then some (value i) else values[i]? := by
  induction indices generalizing values with
  | nil => simp
  | cons index rest ih =>
    rw [List.foldl_cons, ih, List.length_set, List.getElem?_set]
    rcases eq_or_ne index i with rfl | differ
    · by_cases inside : index < values.length <;> simp [inside]
    · simp [differ, differ.symm]

/-- A step that commutes with each step of a list commutes with the list. -/
theorem foldl_past {σ β : Type*} (step : σ → σ) (g : σ → β → σ) (bs : List β)
    (commute : ∀ b ∈ bs, ∀ s, g (step s) b = step (g s b)) (s : σ) : bs.foldl g (step s) = step (bs.foldl g s) := by
  induction bs generalizing s with
  | nil => rfl
  | cons b rest ih =>
    rw [List.foldl_cons, commute b (List.mem_cons_self ..), List.foldl_cons]
    exact ih (fun other member => commute other (List.mem_cons_of_mem _ member)) _

/-- Steps of one kind, each of which commutes with every step of another kind, can all be put last. -/
theorem foldl_interleaved {σ α β : Type*} (f : σ → α → σ) (g : σ → β → σ) (steps : List (α ⊕ β))
    (commute : ∀ a ∈ steps.filterMap Sum.getLeft?, ∀ b ∈ steps.filterMap Sum.getRight?, ∀ s,
      g (f s a) b = f (g s b) a) (s : σ) :
    steps.foldl (fun s step => step.elim (f s) (g s)) s =
      (steps.filterMap Sum.getLeft?).foldl f ((steps.filterMap Sum.getRight?).foldl g s) := by
  induction steps generalizing s with
  | nil => rfl
  | cons step rest ih =>
    cases step with
    | inl a =>
      simp only [List.filterMap_cons, Sum.getLeft?_inl, Sum.getRight?_inl, List.mem_cons, forall_eq_or_imp,
        List.foldl_cons, Sum.elim_inl] at commute ⊢
      rw [ih commute.2, foldl_past (fun s => f s a) g _ commute.1]
    | inr b =>
      simp only [List.filterMap_cons, Sum.getLeft?_inr, Sum.getRight?_inr, List.mem_cons, forall_eq_or_imp,
        List.foldl_cons, Sum.elim_inr] at commute ⊢
      exact ih (fun a member b' member' => (commute a member).2 b' member') _

/-! ### Three lists zipped -/

section Zip

variable {α β γ : Type*} {xs : List α} {ys : List β} {zs : List γ} {a : α} {b : β} {c : γ}

theorem mem_zip_zip_iff : (a, b, c) ∈ xs.zip (ys.zip zs) ↔
    ∃ i : ℕ, xs[i]? = some a ∧ ys[i]? = some b ∧ zs[i]? = some c := by
  simp only [List.mem_iff_getElem?, List.getElem?_zip_eq_some]

theorem mem_zip_of_mem_zip_zip (member : (a, b, c) ∈ xs.zip (ys.zip zs)) : (a, c) ∈ xs.zip zs := by
  obtain ⟨i, inXs, _, inZs⟩ := mem_zip_zip_iff.mp member
  exact List.mem_iff_getElem?.mpr ⟨i, List.getElem?_zip_eq_some.mpr ⟨inXs, inZs⟩⟩

theorem mem_zip_first_of_mem_zip_zip (member : (a, b, c) ∈ xs.zip (ys.zip zs)) : (a, b) ∈ xs.zip ys := by
  obtain ⟨i, inXs, inYs, _⟩ := mem_zip_zip_iff.mp member
  exact List.mem_iff_getElem?.mpr ⟨i, List.getElem?_zip_eq_some.mpr ⟨inXs, inYs⟩⟩

theorem zip_unique (distinct : ys.Nodup) {a' : α} (first : (a, b) ∈ xs.zip ys) (second : (a', b) ∈ xs.zip ys) :
    a = a' := by
  obtain ⟨i, found⟩ := List.mem_iff_getElem?.mp first
  obtain ⟨j, found'⟩ := List.mem_iff_getElem?.mp second
  obtain ⟨inXs, inYs⟩ := List.getElem?_zip_eq_some.mp found
  obtain ⟨inXs', inYs'⟩ := List.getElem?_zip_eq_some.mp found'
  have bound := (List.getElem?_eq_some_iff.mp inYs).1
  obtain rfl := (List.getElem?_inj bound distinct).mp (inYs.trans inYs'.symm)
  exact Option.some.inj (inXs.symm.trans inXs')

/-- An element of a list without repetitions is zipped once. -/
theorem zip_zip_unique (distinct : ys.Nodup) {a' : α} {c' : γ} (first : (a, b, c) ∈ xs.zip (ys.zip zs))
    (second : (a', b, c') ∈ xs.zip (ys.zip zs)) : a = a' ∧ c = c' := by
  obtain ⟨i, inXs, inYs, inZs⟩ := mem_zip_zip_iff.mp first
  obtain ⟨j, inXs', inYs', inZs'⟩ := mem_zip_zip_iff.mp second
  have bound := (List.getElem?_eq_some_iff.mp inYs).1
  obtain rfl := (List.getElem?_inj bound distinct).mp (inYs.trans inYs'.symm)
  exact ⟨Option.some.inj (inXs.symm.trans inXs'), Option.some.inj (inZs.symm.trans inZs')⟩

end Zip

end KVTiering
