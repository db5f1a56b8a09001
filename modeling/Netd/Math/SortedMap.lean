import Mathlib.Data.List.Sort
import Mathlib.Data.List.Dedup
import Mathlib.Data.List.Pairwise
import Mathlib.Data.Prod.Lex

/-! # Ordered keys, ordered sets, and ordered maps

A finite map is its list of entries in strictly increasing key order, so iteration order is part
of the value and two maps with the same lookups are the same list. An ordered set is collected
from a list by removing duplicates and sorting; insertion sort keeps it evaluable in the kernel.
Bit vectors get the linear order of the numbers they denote, which their core `<` already is.
-/

/-- Bit vectors of one width are linearly ordered as unsigned numbers. -/
instance BitVec.instLinearOrder {w : ℕ} : LinearOrder (BitVec w) where
  le_refl a := Nat.le_refl a.toNat
  le_trans _ _ _ := Nat.le_trans
  lt_iff_le_not_ge _ _ := Nat.lt_iff_le_and_not_ge
  le_antisymm _ _ first second := BitVec.eq_of_toNat_eq (Nat.le_antisymm first second)
  le_total a b := Nat.le_total a.toNat b.toNat
  toDecidableLE := inferInstance
  toDecidableEq := inferInstance
  toDecidableLT := inferInstance

/-- An ordered set as it is iterated: sorted, with one occurrence of each element. -/
def List.collect {α : Type*} [LinearOrder α] (items : List α) : List α :=
  items.dedup.insertionSort (· ≤ ·)

namespace List

variable {α : Type*} [LinearOrder α]

@[simp] theorem mem_collect {items : List α} {item : α} : item ∈ items.collect ↔ item ∈ items := by
  simp [collect, mem_insertionSort]

/-- Collecting sorts strictly: no element is repeated. -/
theorem collect_pairwise (items : List α) : items.collect.Pairwise (· < ·) := by
  have ordered := pairwise_insertionSort (· ≤ ·) items.dedup
  have distinct : items.collect.Nodup :=
    (perm_insertionSort _ _).nodup_iff.mpr (nodup_dedup items)
  exact (ordered.and distinct).imp fun ⟨le, ne⟩ => lt_of_le_of_ne le ne

/-- Strictly sorted lists with the same elements are the same list. -/
theorem eq_of_pairwise_lt {left right : List α} (leftSorted : left.Pairwise (· < ·))
    (rightSorted : right.Pairwise (· < ·)) (same : ∀ item, item ∈ left ↔ item ∈ right) :
    left = right := by
  have perm : left.Perm right := (perm_ext_iff_of_nodup (leftSorted.imp ne_of_lt)
    (rightSorted.imp ne_of_lt)).mpr same
  exact perm.eq_of_pairwise (fun a b _ _ ab ba => absurd ab (not_lt.mpr ba.le)) leftSorted rightSorted

end List

/-- A finite map, stored as its entries in strictly increasing key order. -/
structure SortedMap (κ ν : Type*) [LinearOrder κ] where
  entries : List (κ × ν)
  sorted : entries.Pairwise (fun a b => a.1 < b.1)

namespace SortedMap

variable {κ ν : Type*} [LinearOrder κ]

theorem ext_entries {left right : SortedMap κ ν} (same : left.entries = right.entries) :
    left = right := by
  cases left; cases right; cases same; rfl

instance [DecidableEq ν] : DecidableEq (SortedMap κ ν) := fun left right =>
  decidable_of_iff (left.entries = right.entries) ⟨ext_entries, fun same => same ▸ rfl⟩

/-- The map with no entries. -/
def empty : SortedMap κ ν := ⟨[], .nil⟩

def isEmpty (map : SortedMap κ ν) : Bool := map.entries.isEmpty

/-- The value stored under a key. -/
def lookup (map : SortedMap κ ν) (key : κ) : Option ν :=
  (map.entries.find? (fun entry => decide (entry.1 = key))).map Prod.snd

/-- Insertion into an ordered entry list, replacing the value of an existing key. -/
def insertEntry (key : κ) (value : ν) : List (κ × ν) → List (κ × ν)
  | [] => [(key, value)]
  | entry :: rest =>
    if key < entry.1 then (key, value) :: entry :: rest
    else if key = entry.1 then (key, value) :: rest
    else entry :: insertEntry key value rest

private theorem mem_insertEntry {key : κ} {value : ν} {entries : List (κ × ν)} {entry : κ × ν}
    (member : entry ∈ insertEntry key value entries) : entry = (key, value) ∨ entry ∈ entries := by
  induction entries with
  | nil => exact .inl (List.mem_singleton.mp member)
  | cons head rest ih =>
    rw [insertEntry] at member
    split_ifs at member
    · exact (List.mem_cons.mp member)
    · exact (List.mem_cons.mp member).imp id (List.mem_cons_of_mem _)
    · rcases List.mem_cons.mp member with rfl | member
      · exact .inr (List.mem_cons_self ..)
      · exact (ih member).imp id (List.mem_cons_of_mem _)

private theorem insertEntry_sorted (key : κ) (value : ν) {entries : List (κ × ν)}
    (sorted : entries.Pairwise (fun a b => a.1 < b.1)) :
    (insertEntry key value entries).Pairwise (fun a b => a.1 < b.1) := by
  induction entries with
  | nil => exact List.pairwise_singleton ..
  | cons head rest ih =>
    obtain ⟨first, tail⟩ := List.pairwise_cons.mp sorted
    rw [insertEntry]
    split_ifs with before same
    · refine List.pairwise_cons.mpr ⟨fun entry member => ?_, sorted⟩
      rcases List.mem_cons.mp member with rfl | member
      · exact before
      · exact before.trans (first entry member)
    · subst same
      exact List.pairwise_cons.mpr ⟨first, tail⟩
    · refine List.pairwise_cons.mpr ⟨fun entry member => ?_, ih tail⟩
      rcases mem_insertEntry member with rfl | member
      · exact lt_of_le_of_ne (not_lt.mp before) (Ne.symm same)
      · exact first entry member

/-- Set the value of a key. -/
def insert (map : SortedMap κ ν) (key : κ) (value : ν) : SortedMap κ ν :=
  ⟨insertEntry key value map.entries, insertEntry_sorted key value map.sorted⟩

/-- Keep the entries a predicate accepts. -/
def filter (map : SortedMap κ ν) (keep : κ → ν → Bool) : SortedMap κ ν :=
  ⟨map.entries.filter (fun entry => keep entry.1 entry.2), map.sorted.filter _⟩

/-- Remove a key. -/
def erase (map : SortedMap κ ν) (key : κ) : SortedMap κ ν :=
  map.filter fun other _ => decide (other ≠ key)

/-- Update every value in place. -/
def mapVal (map : SortedMap κ ν) (update : κ → ν → ν) : SortedMap κ ν :=
  ⟨map.entries.map (fun entry => (entry.1, update entry.1 entry.2)),
    List.pairwise_map.mpr map.sorted⟩

/-- Update the value of one key in place, if it is present. -/
def modify (map : SortedMap κ ν) (key : κ) (update : ν → ν) : SortedMap κ ν :=
  map.mapVal fun other value => if other = key then update value else value

/-! ## Entries and lookups -/

private theorem eq_of_key_eq {entries : List (κ × ν)}
    (sorted : entries.Pairwise (fun a b => a.1 < b.1)) {first second : κ × ν}
    (left : first ∈ entries) (right : second ∈ entries) (same : first.1 = second.1) :
    first = second := by
  have unique : (entries.map Prod.fst).Nodup := List.pairwise_map.mpr (sorted.imp ne_of_lt)
  exact List.inj_on_of_nodup_map unique left right same

/-- Lookup finds exactly the stored entries. -/
theorem lookup_eq_some_iff (map : SortedMap κ ν) (key : κ) (value : ν) :
    map.lookup key = some value ↔ (key, value) ∈ map.entries := by
  unfold lookup
  constructor
  · intro found
    obtain ⟨⟨k, v⟩, present, rfl⟩ := Option.map_eq_some_iff.mp found
    have same : k = key := by simpa using List.find?_some present
    subst same
    exact List.mem_of_find?_eq_some present
  · intro member
    cases found : map.entries.find? (fun entry => decide (entry.1 = key)) with
    | none =>
      have := List.find?_eq_none.mp found (key, value) member
      simp at this
    | some entry =>
      have same : entry.1 = key := by simpa using List.find?_some found
      have stored := List.mem_of_find?_eq_some found
      rw [← eq_of_key_eq map.sorted member stored same.symm]
      rfl

theorem lookup_empty (key : κ) : (empty : SortedMap κ ν).lookup key = none := rfl

/-- Maps with the same lookups are the same map, iteration order included. -/
theorem ext_lookup {left right : SortedMap κ ν} (same : ∀ key, left.lookup key = right.lookup key) :
    left = right := by
  have member (entry : κ × ν) : entry ∈ left.entries ↔ entry ∈ right.entries := by
    rw [← lookup_eq_some_iff left entry.1 entry.2, ← lookup_eq_some_iff right entry.1 entry.2, same]
  have distinct (map : SortedMap κ ν) : map.entries.Nodup :=
    map.sorted.imp fun lt same => lt.ne (congrArg Prod.fst same)
  have perm := (List.perm_ext_iff_of_nodup (distinct left) (distinct right)).mpr member
  exact ext_entries (perm.eq_of_pairwise (fun a b _ _ ab ba => absurd ab (not_lt.mpr ba.le))
    left.sorted right.sorted)

theorem isEmpty_iff (map : SortedMap κ ν) : map.isEmpty = true ↔ map = empty := by
  constructor
  · intro none
    exact ext_entries (List.isEmpty_iff.mp none)
  · rintro rfl
    rfl

private theorem mem_insertEntry_self (key : κ) (value : ν) (entries : List (κ × ν)) :
    (key, value) ∈ insertEntry key value entries := by
  induction entries with
  | nil => exact List.mem_singleton_self _
  | cons head rest ih =>
    rw [insertEntry]
    split_ifs
    · exact List.mem_cons_self ..
    · exact List.mem_cons_self ..
    · exact List.mem_cons_of_mem _ ih

private theorem mem_insertEntry_of_ne {key : κ} {value : ν} {entries : List (κ × ν)} {entry : κ × ν}
    (other : entry.1 ≠ key) (member : entry ∈ entries) : entry ∈ insertEntry key value entries := by
  induction entries with
  | nil => contradiction
  | cons head rest ih =>
    rw [insertEntry]
    split_ifs with before same
    · exact List.mem_cons_of_mem _ member
    · rcases List.mem_cons.mp member with rfl | member
      · exact absurd same.symm other
      · exact List.mem_cons_of_mem _ member
    · rcases List.mem_cons.mp member with rfl | member
      · exact List.mem_cons_self ..
      · exact List.mem_cons_of_mem _ (ih member)

@[simp] theorem lookup_insert_self (map : SortedMap κ ν) (key : κ) (value : ν) :
    (map.insert key value).lookup key = some value :=
  (lookup_eq_some_iff _ _ _).mpr (mem_insertEntry_self key value map.entries)

theorem lookup_insert_of_ne (map : SortedMap κ ν) {key other : κ} (value : ν) (distinct : other ≠ key) :
    (map.insert key value).lookup other = map.lookup other := by
  apply Option.ext
  intro found
  rw [lookup_eq_some_iff, lookup_eq_some_iff]
  constructor
  · intro member
    rcases mem_insertEntry member with same | member
    · exact absurd (congrArg Prod.fst same) distinct
    · exact member
  · exact mem_insertEntry_of_ne distinct

theorem lookup_insert (map : SortedMap κ ν) (key other : κ) (value : ν) :
    (map.insert key value).lookup other = if other = key then some value else map.lookup other := by
  split_ifs with same
  · subst same
    exact map.lookup_insert_self other value
  · exact map.lookup_insert_of_ne value same

@[simp] theorem lookup_filter (map : SortedMap κ ν) (keep : κ → ν → Bool) (key : κ) :
    (map.filter keep).lookup key = (map.lookup key).filter (keep key) := by
  apply Option.ext
  intro value
  rw [lookup_eq_some_iff, Option.filter_eq_some_iff, lookup_eq_some_iff]
  exact List.mem_filter

theorem lookup_erase (map : SortedMap κ ν) (key other : κ) :
    (map.erase key).lookup other = if other = key then none else map.lookup other := by
  rw [erase, lookup_filter]
  split_ifs with same
  · cases map.lookup other <;> simp [same]
  · cases map.lookup other <;> simp [same]

@[simp] theorem lookup_mapVal (map : SortedMap κ ν) (update : κ → ν → ν) (key : κ) :
    (map.mapVal update).lookup key = (map.lookup key).map (update key) := by
  apply Option.ext
  intro value
  rw [lookup_eq_some_iff, Option.map_eq_some_iff]
  constructor
  · intro member
    obtain ⟨⟨k, v⟩, stored, same⟩ := List.mem_map.mp member
    obtain ⟨rfl, rfl⟩ := Prod.mk.inj same
    exact ⟨v, (lookup_eq_some_iff _ _ _).mpr stored, rfl⟩
  · rintro ⟨old, found, rfl⟩
    exact List.mem_map.mpr ⟨(key, old), (lookup_eq_some_iff _ _ _).mp found, rfl⟩

theorem lookup_modify (map : SortedMap κ ν) (key other : κ) (update : ν → ν) :
    (map.modify key update).lookup other =
      if other = key then (map.lookup other).map update else map.lookup other := by
  rw [modify, lookup_mapVal]
  split_ifs <;> simp

/-! ## One map along another -/

/-- A value is put under every key of another map, made of what was there and of the other's value. -/
theorem lookup_foldl_insert {μ : Type*} (value : κ → Option ν → μ → ν) (other : SortedMap κ μ) (map : SortedMap κ ν)
    (key : κ) :
    (other.entries.foldl (fun map entry => map.insert entry.1 (value entry.1 (map.lookup entry.1) entry.2)) map).lookup
        key =
      ((other.lookup key).map (value key (map.lookup key))).or (map.lookup key) := by
  obtain ⟨entries, sorted⟩ := other
  induction entries generalizing map with
  | nil => rfl
  | cons entry rest ih =>
    have later := ih (map.insert entry.1 (value entry.1 (map.lookup entry.1) entry.2)) sorted.of_cons
    rw [List.foldl_cons, later]
    by_cases same : entry.1 = key
    · have here : (⟨entry :: rest, sorted⟩ : SortedMap κ μ).lookup key = some entry.2 := by
        simp [lookup, same]
      have past : (⟨rest, sorted.of_cons⟩ : SortedMap κ μ).lookup key = none := by
        rw [lookup, Option.map_eq_none_iff, List.find?_eq_none]
        intro after member
        have less := List.rel_of_pairwise_cons sorted member
        simpa using fun found : after.1 = key => less.ne (same.trans found.symm)
      rw [here, past, same, lookup_insert_self]
      rfl
    · have elsewhere : (⟨entry :: rest, sorted⟩ : SortedMap κ μ).lookup key =
          (⟨rest, sorted.of_cons⟩ : SortedMap κ μ).lookup key := by
        simp [lookup, same]
      rw [elsewhere, lookup_insert_of_ne map _ (Ne.symm same)]

/-! ## Operations on one key after another -/

theorem insert_erase (map : SortedMap κ ν) (key : κ) (value : ν) :
    (map.erase key).insert key value = map.insert key value := by
  apply ext_lookup
  intro other
  simp only [lookup_insert, lookup_erase]
  split_ifs <;> rfl

theorem erase_insert (map : SortedMap κ ν) (key : κ) (value : ν) :
    (map.insert key value).erase key = map.erase key := by
  apply ext_lookup
  intro other
  simp only [lookup_insert, lookup_erase]
  split_ifs <;> rfl

/-! ## How many entries -/

theorem length_insertEntry_le (key : κ) (value : ν) (entries : List (κ × ν)) :
    (insertEntry key value entries).length ≤ entries.length + 1 := by
  induction entries with
  | nil => exact Nat.le_refl _
  | cons entry rest ih =>
    rw [insertEntry]
    split_ifs
    · exact Nat.le_refl _
    · exact Nat.le_succ _
    · exact Nat.succ_le_succ ih

theorem length_insert_le (map : SortedMap κ ν) (key : κ) (value : ν) :
    (map.insert key value).entries.length ≤ map.entries.length + 1 :=
  length_insertEntry_le key value map.entries

/-- A key that is there makes room when it goes. -/
theorem length_erase_lt {map : SortedMap κ ν} {key : κ} {value : ν} (found : map.lookup key = some value) :
    (map.erase key).entries.length < map.entries.length := by
  apply List.length_filter_lt_length_iff_exists.mpr
  exact ⟨(key, value), (map.lookup_eq_some_iff key value).mp found, by simp⟩

/-- A value that takes the place of another takes no room of its own. -/
theorem length_insert_of_lookup {map : SortedMap κ ν} {key : κ} {old : ν} (found : map.lookup key = some old)
    (value : ν) : (map.insert key value).entries.length ≤ map.entries.length := by
  rw [← insert_erase]
  exact Nat.le_trans (length_insert_le _ key value) (length_erase_lt found)

theorem length_filter_le (map : SortedMap κ ν) (keep : κ → ν → Bool) :
    (map.filter keep).entries.length ≤ map.entries.length := List.length_filter_le _ _

/-- Filtering by a predicate true of every entry changes nothing. -/
theorem filter_eq_self {map : SortedMap κ ν} {keep : κ → ν → Bool}
    (all : ∀ entry ∈ map.entries, keep entry.1 entry.2 = true) : map.filter keep = map :=
  ext_entries (List.filter_eq_self.mpr all)

/-- An update that fixes every entry changes nothing. -/
theorem mapVal_eq_self {map : SortedMap κ ν} {update : κ → ν → ν}
    (all : ∀ entry ∈ map.entries, update entry.1 entry.2 = entry.2) : map.mapVal update = map := by
  apply ext_entries
  change map.entries.map _ = map.entries
  conv_rhs => rw [← List.map_id map.entries]
  exact List.map_congr_left fun entry member => by rw [all entry member]; rfl

end SortedMap
