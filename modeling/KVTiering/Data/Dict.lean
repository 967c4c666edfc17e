import Mathlib.Data.List.Induction
import Mathlib.Data.List.Nodup

/-! # Insertion-ordered dictionaries

A `Dict` is a finite map kept as the list of its items. Overwriting a key leaves the key where it
is, a new key goes last, and removing a key closes the gap, so iterating over the items visits the
keys in the order in which they were first inserted. That no key occurs twice is a field: a reader
of the items never sees a stale binding. `get?` determines every update below.
-/

namespace KVTiering

/-- A finite map with its keys in insertion order. -/
structure Dict (κ ν : Type*) where
  items : List (κ × ν)
  nodup : (items.map Prod.fst).Nodup

namespace Dict

variable {κ ν : Type*}

def empty : Dict κ ν := ⟨[], List.nodup_nil⟩

instance : Inhabited (Dict κ ν) := ⟨empty⟩

def keys (d : Dict κ ν) : List κ := d.items.map Prod.fst

def values (d : Dict κ ν) : List ν := d.items.map Prod.snd

def size (d : Dict κ ν) : ℕ := d.items.length

/-- Rewrite every value in place. -/
def mapValues (d : Dict κ ν) (f : κ → ν → ν) : Dict κ ν where
  items := d.items.map fun item => (item.1, f item.1 item.2)
  nodup := by simpa only [List.map_map, Function.comp_def] using d.nodup

/-- Keep the items that pass a test. -/
def filter (d : Dict κ ν) (keep : κ → ν → Bool) : Dict κ ν where
  items := d.items.filter fun item => keep item.1 item.2
  nodup := d.nodup.sublist (List.filter_sublist.map _)

theorem items_nodup (d : Dict κ ν) : d.items.Nodup := .of_map _ d.nodup

variable [DecidableEq κ]

def get? (d : Dict κ ν) (key : κ) : Option ν :=
  (d.items.find? fun item => item.1 = key).map Prod.snd

def contains (d : Dict κ ν) (key : κ) : Bool := (d.get? key).isSome

theorem get?_eq_some_iff {d : Dict κ ν} {key : κ} {value : ν} :
    d.get? key = some value ↔ (key, value) ∈ d.items := by
  constructor
  · intro found
    obtain ⟨item, hit, rfl⟩ := Option.map_eq_some_iff.mp found
    have same : item.1 = key := by simpa using List.find?_some hit
    rw [← same]
    exact List.mem_of_find?_eq_some hit
  · intro member
    have present : (d.items.find? fun item => decide (item.1 = key)).isSome := by
      rw [List.find?_isSome]
      exact ⟨_, member, by simp⟩
    obtain ⟨item, hit⟩ := Option.isSome_iff_exists.mp present
    have same : item.1 = key := by simpa using List.find?_some hit
    have unique := List.inj_on_of_nodup_map d.nodup (List.mem_of_find?_eq_some hit) member same
    rw [get?, hit, unique]
    rfl

theorem get?_eq_none_iff {d : Dict κ ν} {key : κ} : d.get? key = none ↔ key ∉ d.keys := by
  rw [Option.eq_none_iff_forall_ne_some, keys, List.mem_map]
  constructor
  · rintro absent ⟨item, member, rfl⟩
    exact absent item.2 (get?_eq_some_iff.mpr member)
  · intro absent value found
    exact absent ⟨_, get?_eq_some_iff.mp found, rfl⟩

theorem items_eq_nil {d : Dict κ ν} (absent : ∀ key, d.get? key = none) : d.items = [] := by
  rw [List.eq_nil_iff_forall_not_mem]
  rintro ⟨key, value⟩ member
  exact get?_eq_none_iff.mp (absent key) (List.mem_map_of_mem member)

theorem contains_iff {d : Dict κ ν} {key : κ} : d.contains key = true ↔ key ∈ d.keys := by
  rw [contains, Option.isSome_iff_ne_none, ne_eq, get?_eq_none_iff, not_not]

theorem mem_values_iff {d : Dict κ ν} {value : ν} :
    value ∈ d.values ↔ ∃ key, d.get? key = some value := by
  simp only [values, List.mem_map, Prod.exists, exists_eq_right, get?_eq_some_iff]

/-- Two dictionaries that agree on what their items are agree on every lookup. -/
theorem get?_congr {d e : Dict κ ν} {key : κ}
    (same : ∀ value, (key, value) ∈ d.items ↔ (key, value) ∈ e.items) : d.get? key = e.get? key := by
  apply Option.ext
  intro value
  rw [get?_eq_some_iff, get?_eq_some_iff, same]

@[simp] theorem get?_empty (key : κ) : (empty : Dict κ ν).get? key = none := rfl

@[simp] theorem get?_mapValues (d : Dict κ ν) (f : κ → ν → ν) (key : κ) :
    (d.mapValues f).get? key = (d.get? key).map (f key) := by
  apply Option.ext
  intro value
  simp only [get?_eq_some_iff, mapValues, List.mem_map, Option.map_eq_some_iff]
  constructor
  · rintro ⟨⟨k, v⟩, member, same⟩
    obtain ⟨rfl, rfl⟩ := Prod.mk.inj same
    exact ⟨v, member, rfl⟩
  · rintro ⟨v, member, rfl⟩
    exact ⟨_, member, rfl⟩

@[simp] theorem get?_filter (d : Dict κ ν) (keep : κ → ν → Bool) (key : κ) :
    (d.filter keep).get? key = (d.get? key).filter (keep key) := by
  apply Option.ext
  intro value
  simp only [get?_eq_some_iff, filter, List.mem_filter, Option.filter_eq_some_iff]

/-- `d[key] = value`: overwrite in place, or append a new item. -/
def set (d : Dict κ ν) (key : κ) (value : ν) : Dict κ ν :=
  if absent : key ∈ d.keys then
    d.mapValues fun k v => if k = key then value else v
  else
    ⟨d.items ++ [(key, value)], by
      rw [List.map_append]
      exact List.nodup_append'.mpr ⟨d.nodup, by simp, by simpa [keys] using absent⟩⟩

@[simp] theorem get?_set (d : Dict κ ν) (key : κ) (value : ν) (other : κ) :
    (d.set key value).get? other = if other = key then some value else d.get? other := by
  unfold set
  split
  · next present =>
    rw [get?_mapValues]
    split
    · next same =>
      subst same
      obtain ⟨old, found⟩ := Option.ne_none_iff_exists'.mp (mt get?_eq_none_iff.mp (not_not.mpr present))
      rw [found]
      rfl
    · simp
  · next absent =>
    split
    · next same =>
      subst same
      rw [get?_eq_some_iff]
      simp
    · next differ =>
      apply get?_congr
      intro v
      simp [differ]

/-- `INSERT OR IGNORE`, `d.setdefault(key, value)`: an existing binding wins. -/
def insertOrIgnore (d : Dict κ ν) (key : κ) (value : ν) : Dict κ ν :=
  if d.contains key then d else d.set key value

@[simp] theorem get?_insertOrIgnore (d : Dict κ ν) (key : κ) (value : ν) (other : κ) :
    (d.insertOrIgnore key value).get? other =
      (d.get? other).or (if other = key then some value else none) := by
  unfold insertOrIgnore contains
  split
  · next present =>
    rcases eq_or_ne other key with rfl | differ
    · obtain ⟨old, found⟩ := Option.isSome_iff_exists.mp present
      simp [found]
    · simp [differ]
  · next absent =>
    rw [get?_set]
    split
    · next same =>
      subst same
      simp [Option.not_isSome_iff_eq_none.mp absent]
    · simp

theorem items_insertOrIgnore (d : Dict κ ν) (key : κ) (value : ν) :
    (d.insertOrIgnore key value).items = if key ∈ d.keys then d.items else d.items ++ [(key, value)] := by
  unfold insertOrIgnore set
  simp only [contains_iff]
  split_ifs <;> rfl

/-- `d.pop(key, None)`. -/
def erase (d : Dict κ ν) (key : κ) : Dict κ ν := d.filter fun k _ => k ≠ key

@[simp] theorem get?_erase (d : Dict κ ν) (key other : κ) :
    (d.erase key).get? other = if other = key then none else d.get? other := by
  rw [erase, get?_filter]
  split <;> rename_i same <;> cases d.get? other <;> simp [same, Option.filter]

/-- A new key goes last. -/
theorem items_set_of_notMem {d : Dict κ ν} {key : κ} (absent : key ∉ d.keys) (value : ν) :
    (d.set key value).items = d.items ++ [(key, value)] := by
  rw [set, dif_neg absent]

/-- An item and what is left without it. -/
theorem perm_erase {d : Dict κ ν} {key : κ} {value : ν} (found : d.get? key = some value) :
    d.items.Perm ((key, value) :: (d.erase key).items) := by
  have outside : (key, value) ∉ (d.erase key).items := by simp [erase, filter]
  refine (List.perm_ext_iff_of_nodup d.items_nodup
    (List.nodup_cons.mpr ⟨outside, (d.erase key).items_nodup⟩)).mpr ?_
  rintro ⟨other, value'⟩
  rw [List.mem_cons, ← get?_eq_some_iff, ← get?_eq_some_iff, get?_erase]
  rcases eq_or_ne other key with rfl | differ
  · simp [found, eq_comm]
  · simp [differ]

theorem size_erase {d : Dict κ ν} {key : κ} {value : ν} (found : d.get? key = some value) :
    (d.erase key).size + 1 = d.size := by
  have split := (perm_erase found).length_eq
  rw [List.length_cons] at split
  exact split.symm

/-- `for key, value in items: d[key] = value`. -/
def setAll (d : Dict κ ν) (items : List (κ × ν)) : Dict κ ν :=
  items.foldl (fun acc item => acc.set item.1 item.2) d

/-- `executemany("INSERT OR IGNORE ...", items)`. -/
def insertAllOrIgnore (d : Dict κ ν) (items : List (κ × ν)) : Dict κ ν :=
  items.foldl (fun acc item => acc.insertOrIgnore item.1 item.2) d

/-- `for key in keys: d.pop(key, None)`. -/
def eraseAll (d : Dict κ ν) (keys : List κ) : Dict κ ν := keys.foldl erase d

theorem get?_setAll_of_notMem (d : Dict κ ν) {items : List (κ × ν)} {key : κ}
    (absent : key ∉ items.map Prod.fst) : (d.setAll items).get? key = d.get? key := by
  induction items generalizing d with
  | nil => rfl
  | cons item rest ih =>
    simp only [List.map_cons, List.mem_cons, not_or] at absent
    change ((d.set item.1 item.2).setAll rest).get? key = _
    rw [ih _ absent.2, get?_set, if_neg absent.1]

/-- An `update` that only repeats what a function says of each of its keys. -/
theorem get?_setAll_of_forall (d : Dict κ ν) {items : List (κ × ν)} {key : κ} {value : ν}
    (agree : ∀ item ∈ items, item.1 = key → item.2 = value) (present : key ∈ items.map Prod.fst) :
    (d.setAll items).get? key = some value := by
  induction items generalizing d with
  | nil => cases present
  | cons item rest ih =>
    change ((d.set item.1 item.2).setAll rest).get? key = _
    by_cases later : key ∈ rest.map Prod.fst
    · exact ih _ (fun other member => agree other (List.mem_cons_of_mem _ member)) later
    · have same : key = item.1 := by simpa [later] using present
      rw [get?_setAll_of_notMem _ later, get?_set, if_pos same,
        agree item (List.mem_cons_self ..) same.symm]

@[simp] theorem get?_insertAllOrIgnore (d : Dict κ ν) (items : List (κ × ν)) (key : κ) :
    (d.insertAllOrIgnore items).get? key =
      (d.get? key).or ((items.find? fun item => item.1 = key).map Prod.snd) := by
  induction items generalizing d with
  | nil => simp [insertAllOrIgnore]
  | cons item rest ih =>
    change ((d.insertOrIgnore item.1 item.2).insertAllOrIgnore rest).get? key = _
    rw [ih, get?_insertOrIgnore, Option.or_assoc, List.find?_cons]
    by_cases same : item.1 = key
    · simp [same]
    · have differ : ¬ key = item.1 := fun equal => same equal.symm
      simp [same, differ]

@[simp] theorem get?_eraseAll (d : Dict κ ν) (keys : List κ) (key : κ) :
    (d.eraseAll keys).get? key = if key ∈ keys then none else d.get? key := by
  induction keys generalizing d with
  | nil => simp [eraseAll]
  | cons head rest ih =>
    change ((d.erase head).eraseAll rest).get? key = _
    rw [ih, get?_erase]
    by_cases same : key = head <;> simp [same]

theorem size_eraseAll {d : Dict κ ν} {keys : List κ} (distinct : keys.Nodup)
    (present : ∀ key ∈ keys, (d.get? key).isSome) : (d.eraseAll keys).size + keys.length = d.size := by
  induction keys generalizing d with
  | nil => rfl
  | cons head rest ih =>
    obtain ⟨fresh, distinct⟩ := List.nodup_cons.mp distinct
    obtain ⟨value, found⟩ := Option.isSome_iff_exists.mp (present head (List.mem_cons_self ..))
    have still : ∀ key ∈ rest, ((d.erase head).get? key).isSome := by
      intro key member
      rw [get?_erase, if_neg (ne_of_mem_of_not_mem member fresh)]
      exact present key (List.mem_cons_of_mem _ member)
    have removed := ih distinct still
    change ((d.erase head).eraseAll rest).size + (rest.length + 1) = d.size
    rw [← size_erase found, ← removed]
    omega

/-- `d.setdefault(label(item), []).append(item)` for each item: the items by label, each group in order. -/
def groupOn {α : Type*} (label : α → κ) (items : List α) : Dict κ (List α) :=
  items.foldl (fun groups item => groups.set (label item) ((groups.get? (label item)).getD [] ++ [item])) empty

theorem groupOn_snoc {α : Type*} (label : α → κ) (items : List α) (item : α) :
    groupOn label (items ++ [item]) = (groupOn label items).set (label item)
      (((groupOn label items).get? (label item)).getD [] ++ [item]) := by
  simp only [groupOn, List.foldl_append, List.foldl_cons, List.foldl_nil]

/-- Overwriting a value, seen without the order of the items. -/
theorem perm_set {d : Dict κ ν} {key : κ} {old : ν} (found : d.get? key = some old) (value : ν) :
    (d.set key value).items.Perm ((key, value) :: (d.erase key).items) := by
  have stored : (d.set key value).get? key = some value := by rw [get?_set, if_pos rfl]
  refine (perm_erase stored).trans (List.Perm.cons _ ?_)
  apply (List.perm_ext_iff_of_nodup (items_nodup _) (items_nodup _)).mpr
  rintro ⟨other, value'⟩
  rw [← get?_eq_some_iff, ← get?_eq_some_iff, get?_erase, get?_erase, get?_set]
  rcases eq_or_ne other key with rfl | differ
  · simp
  · simp [differ]

/-- The groups hold each item once. -/
theorem perm_groupOn {α : Type*} (label : α → κ) (items : List α) :
    (groupOn label items).values.flatten.Perm items := by
  induction items using List.reverseRecOn with
  | nil => exact .nil
  | append_singleton before item ih =>
    rw [groupOn_snoc]
    refine List.Perm.trans ?_ (ih.append_right [item])
    cases found : (groupOn label before).get? (label item) with
    | none =>
      rw [get?_eq_none_iff] at found
      rw [values, items_set_of_notMem found, List.map_append, List.flatten_append]
      simp [values]
    | some group =>
      have grown := ((perm_set found (group ++ [item])).map Prod.snd).flatten
      have whole := ((perm_erase found).map Prod.snd).flatten
      rw [Option.getD_some]
      apply grown.trans
      refine List.Perm.trans ?_ (whole.symm.append_right [item])
      simp only [List.map_cons, List.flatten_cons, List.append_assoc]
      exact List.perm_append_comm.append_left group

/-- A label's group is the items of that label, in order. -/
theorem get?_groupOn {α : Type*} (label : α → κ) (items : List α) (key : κ) :
    ((groupOn label items).get? key).getD [] = items.filter fun item => label item = key := by
  induction items using List.reverseRecOn with
  | nil => rfl
  | append_singleton before item ih =>
    rw [groupOn_snoc, get?_set, List.filter_append]
    rcases eq_or_ne key (label item) with rfl | differ
    · simp [ih]
    · rw [if_neg differ, ih, List.filter_singleton]
      simp [Ne.symm differ]

/-- No group is empty. -/
theorem ne_nil_of_groupOn {α : Type*} {label : α → κ} {items : List α} {key : κ} {group : List α}
    (found : (groupOn label items).get? key = some group) : group ≠ [] := by
  induction items using List.reverseRecOn generalizing group with
  | nil => simp [groupOn] at found
  | append_singleton before item ih =>
    rw [groupOn_snoc, get?_set] at found
    split at found
    · rw [← Option.some.inj found]
      simp
    · exact ih found

/-- The groups are the items of each label that occurs. -/
theorem mem_values_groupOn {α : Type*} {label : α → κ} {items group : List α} :
    group ∈ (groupOn label items).values ↔
      group ≠ [] ∧ ∃ key, group = items.filter fun item => label item = key := by
  rw [mem_values_iff]
  constructor
  · rintro ⟨key, found⟩
    refine ⟨ne_nil_of_groupOn found, key, ?_⟩
    rw [← get?_groupOn, found]
    rfl
  · rintro ⟨some, key, rfl⟩
    refine ⟨key, ?_⟩
    rw [← get?_groupOn] at some ⊢
    cases found : (groupOn label items).get? key with
    | none => simp [found] at some
    | some group => rfl

end Dict

end KVTiering
