import Mathlib.Data.List.Basic
import Mathlib.Tactic.SplitIfs

/-! # Records that stand back to back

A record says itself where it ends, so whether a whole record stands in front of a list depends on
nothing behind it. A list then splits in one way only: into whole records, and a rest in front of
which none stands.
-/

/-- The lists that are one whole record, and how long the one in front of a list is, if any stands there. -/
structure Records (α : Type*) where
  Whole : List α → Prop
  front : List α → Option ℕ
  ne_nil : ∀ {record}, Whole record → record ≠ []
  front_eq_some_iff : ∀ {items n}, front items = some n ↔
    ∃ record rest, Whole record ∧ items = record ++ rest ∧ n = record.length

namespace Records

variable {α : Type*} (records : Records α)

theorem pos {items : List α} {n : ℕ} (found : records.front items = some n) : 0 < n := by
  obtain ⟨record, rest, whole, _, rfl⟩ := records.front_eq_some_iff.mp found
  exact List.length_pos_iff.mpr (records.ne_nil whole)

theorem le_length {items : List α} {n : ℕ} (found : records.front items = some n) : n ≤ items.length := by
  obtain ⟨record, rest, _, rfl, rfl⟩ := records.front_eq_some_iff.mp found
  rw [List.length_append]
  omega

/-- The whole records in front, and what follows the last of them. -/
def split (items : List α) : List (List α) × List α :=
  match _found : records.front items with
  | none => ([], items)
  | some n =>
    let more := split (items.drop n)
    (items.take n :: more.1, more.2)
termination_by items.length
decreasing_by
  have := records.pos _found
  have := records.le_length _found
  rw [List.length_drop]
  omega

variable {records}

theorem split_none {items : List α} (none : records.front items = none) : records.split items = ([], items) := by
  rw [split.eq_def]
  split
  · rfl
  · next found => cases none.symm.trans found

theorem split_some {items : List α} {n : ℕ} (found : records.front items = some n) :
    records.split items =
      (items.take n :: (records.split (items.drop n)).1, (records.split (items.drop n)).2) := by
  rw [split.eq_def]
  split
  · next none => cases none.symm.trans found
  · next m there =>
    cases there.symm.trans found
    rfl

theorem front_append {record : List α} (whole : records.Whole record) (more : List α) :
    records.front (record ++ more) = some record.length :=
  records.front_eq_some_iff.mpr ⟨record, more, whole, rfl, rfl⟩

theorem whole_take {items : List α} {n : ℕ} (found : records.front items = some n) :
    records.Whole (items.take n) := by
  obtain ⟨record, rest, whole, rfl, rfl⟩ := records.front_eq_some_iff.mp found
  rwa [List.take_left]

/-- Nothing is lost. -/
theorem split_flatten (items : List α) :
    (records.split items).1.flatten ++ (records.split items).2 = items := by
  fun_induction records.split items with
  | case1 items none => rfl
  | case2 items n found more ih =>
    dsimp only [more]
    rw [List.flatten_cons, List.append_assoc, ih, List.take_append_drop]

theorem split_whole (items : List α) : ∀ record ∈ (records.split items).1, records.Whole record := by
  fun_induction records.split items with
  | case1 items none => exact fun _ member => absurd member (List.not_mem_nil)
  | case2 items n found more ih =>
    intro record member
    rcases List.mem_cons.mp member with rfl | later
    · exact whole_take found
    · exact ih record later

theorem split_rest (items : List α) : records.front (records.split items).2 = none := by
  fun_induction records.split items with
  | case1 items none => exact none
  | case2 items n found more ih => exact ih

theorem split_cons {record : List α} (whole : records.Whole record) (more : List α) :
    records.split (record ++ more) = (record :: (records.split more).1, (records.split more).2) := by
  rw [split_some (front_append whole more), List.take_left, List.drop_left]

/-- Whole records are read back one by one. -/
theorem split_append {parts : List (List α)} (whole : ∀ part ∈ parts, records.Whole part) (more : List α) :
    records.split (parts.flatten ++ more) = (parts ++ (records.split more).1, (records.split more).2) := by
  induction parts with
  | nil => rfl
  | cons part rest ih =>
    rw [List.flatten_cons, List.append_assoc, split_cons (whole part List.mem_cons_self),
      ih fun other member => whole other (List.mem_cons_of_mem _ member)]
    rfl

/-! ## Blocks of one size -/

section Blocks

variable {size : ℕ}

/-- Blocks of so many items. -/
def blocks (α : Type*) {size : ℕ} (positive : 0 < size) : Records α where
  Whole block := block.length = size
  front items := if items.length < size then none else some size
  ne_nil whole := by
    rintro rfl
    exact Nat.ne_of_lt positive whole
  front_eq_some_iff {items n} := by
    constructor
    · intro found
      split_ifs at found with short
      have whole : (items.take size).length = size := by
        rw [List.length_take, Nat.min_eq_left (Nat.not_lt.mp short)]
      exact ⟨items.take size, items.drop size, whole, (List.take_append_drop _ _).symm,
        (Option.some.inj found).symm.trans whole.symm⟩
    · rintro ⟨block, rest, rfl, rfl, rfl⟩
      rw [if_neg]
      rw [List.length_append]
      omega

/-- The blocks of a list stand at the multiples of their size. -/
theorem split_blocks (positive : 0 < size) (items : List α) :
    ((blocks α positive).split items).1 =
      (List.range (items.length / size)).map fun index => (items.drop (size * index)).take size := by
  fun_induction (blocks α positive).split items with
  | case1 items none =>
    change (if items.length < size then Option.none else some size) = Option.none at none
    split_ifs at none with short
    rw [Nat.div_eq_of_lt short]
    rfl
  | case2 items n found more ih =>
    change (if items.length < size then Option.none else some size) = some n at found
    split_ifs at found with short
    obtain rfl := Option.some.inj found
    have count : items.length / size = (items.drop size).length / size + 1 := by
      rw [List.length_drop, ← Nat.sub_add_cancel (Nat.not_lt.mp short), Nat.add_sub_cancel, Nat.add_div_right _ positive]
    rw [ih, count, List.range_succ_eq_map, List.map_cons, List.map_map, Nat.mul_zero, List.drop_zero]
    refine congrArg _ (List.map_congr_left fun index _ => ?_)
    rw [Function.comp_apply, List.drop_drop, Nat.mul_succ, Nat.add_comm]

end Blocks

end Records
