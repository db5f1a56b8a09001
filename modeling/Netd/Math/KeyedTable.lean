import Netd.Math.SortedMap

/-! # Keyed tables, and closing the difference to a wanted set

A keyed table is a list in which an entry is addressed by its key: putting an entry replaces the
entry of the same key where it stands, dropping one removes it. A reconciler looks at the part of
a table it owns, in a normal form, and asks for the changes that lead to a wanted set. Whatever
part of these changes the table refuses, the difference that remains is the refused part.
-/

namespace KeyedTable

variable {α κ : Type*} [DecidableEq κ] (key : α → κ)

/-- Replace the entry of the same key in place, or append. -/
def put (table : List α) (entry : α) : List α :=
  if table.any fun other => key other = key entry then
    table.map fun other => if key other = key entry then entry else other
  else table ++ [entry]

/-- Remove the entry of the same key. -/
def drop (table : List α) (entry : α) : List α :=
  table.filter fun other => key other ≠ key entry

/-- One request to a table. -/
inductive Change (α : Type*) where
  | put (entry : α)
  | drop (entry : α)
deriving DecidableEq

def Change.entry : Change α → α
  | .put entry | .drop entry => entry

/-- A request as the table carries it out. -/
def Change.exec (table : List α) : Change α → List α
  | .put entry => KeyedTable.put key table entry
  | .drop entry => KeyedTable.drop key table entry

/-- Requests carried out in order. -/
def run (table : List α) (changes : List (Change α)) : List α :=
  changes.foldl (Change.exec key) table

variable {key}

theorem mem_put {table : List α} {entry item : α} :
    item ∈ put key table entry ↔ item = entry ∨ (item ∈ table ∧ key entry ≠ key item) := by
  unfold put
  split_ifs with present
  · obtain ⟨old, stored, same⟩ : ∃ old ∈ table, key old = key entry := by simpa using present
    constructor
    · intro member
      obtain ⟨other, stored, rfl⟩ := List.mem_map.mp member
      split_ifs with replaced
      · exact .inl rfl
      · exact .inr ⟨stored, Ne.symm replaced⟩
    · rintro (rfl | ⟨member, other⟩)
      · exact List.mem_map.mpr ⟨old, stored, if_pos same⟩
      · exact List.mem_map.mpr ⟨item, member, if_neg (Ne.symm other)⟩
  · have absent : ∀ other ∈ table, key other ≠ key entry := by simpa using present
    rw [List.mem_append, List.mem_singleton, or_comm]
    exact or_congr_right ⟨fun member => ⟨member, (absent item member).symm⟩, And.left⟩

theorem mem_drop {table : List α} {entry item : α} :
    item ∈ drop key table entry ↔ item ∈ table ∧ key entry ≠ key item := by
  rw [drop, List.mem_filter, decide_eq_true_eq, ne_comm]

/-- One request decides its own key and leaves every other entry alone. -/
theorem mem_exec {table : List α} {change : Change α} {item : α} :
    item ∈ change.exec key table ↔
      change = .put item ∨ (item ∈ table ∧ key change.entry ≠ key item) := by
  cases change with
  | put entry => simp only [Change.exec, mem_put, Change.entry, Change.put.injEq, eq_comm]
  | drop entry => simp only [Change.exec, mem_drop, Change.entry, reduceCtorEq, false_or]

/-- Requests for distinct keys each decide the entry of their own key. -/
theorem mem_run {table : List α} {changes : List (Change α)} {item : α}
    (distinct : changes.Pairwise fun first second => key first.entry ≠ key second.entry) :
    item ∈ run key table changes ↔ .put item ∈ changes ∨
      (item ∈ table ∧ ∀ change ∈ changes, key change.entry ≠ key item) := by
  induction changes generalizing table with
  | nil => simp [run]
  | cons change rest ih =>
    obtain ⟨first, later⟩ := List.pairwise_cons.mp distinct
    refine (ih later).trans ?_
    rw [mem_exec, List.mem_cons, List.forall_mem_cons]
    constructor
    · rintro (member | ⟨rfl | ⟨member, other⟩, others⟩)
      · exact .inl (.inr member)
      · exact .inl (.inl rfl)
      · exact .inr ⟨member, other, others⟩
    · rintro ((rfl | member) | ⟨member, other, others⟩)
      · exact .inr ⟨.inl rfl, fun change member => (first change member).symm⟩
      · exact .inl member
      · exact .inr ⟨.inr ⟨member, other⟩, others⟩

/-- Requests for one key that agree on what they put there. -/
theorem mem_run_agree {table : List α} {changes : List (Change α)} {item : α} {puts : Prop}
    (agree : ∀ change ∈ changes, key change.entry = key item → (change = .put item ↔ puts)) :
    item ∈ run key table changes ↔
      ((∃ change ∈ changes, key change.entry = key item) ∧ puts) ∨
        ((∀ change ∈ changes, key change.entry ≠ key item) ∧ item ∈ table) := by
  induction changes generalizing table with
  | nil => simp [run]
  | cons change rest ih =>
    obtain ⟨first, later⟩ := List.forall_mem_cons.mp agree
    refine (ih later).trans ?_
    rw [mem_exec, List.exists_mem_cons_iff, List.forall_mem_cons]
    by_cases same : key change.entry = key item
    · rw [first same]
      constructor
      · rintro (⟨-, put⟩ | ⟨-, put | ⟨-, other⟩⟩)
        · exact .inl ⟨.inl same, put⟩
        · exact .inl ⟨.inl same, put⟩
        · exact absurd same other
      · rintro (⟨-, put⟩ | ⟨⟨other, -⟩, -⟩)
        · by_cases again : ∃ change ∈ rest, key change.entry = key item
          · exact .inl ⟨again, put⟩
          · push Not at again
            exact .inr ⟨again, .inl put⟩
        · exact absurd same other
    · have elsewhere : change ≠ .put item := fun put => same (congrArg (fun c => key (Change.entry c)) put)
      simp [same, elsewhere]

/-- A request leaves the entries of other keys as they are, in their order. -/
theorem filter_exec {table : List α} {change : Change α} {keep : α → Bool}
    (keyed : ∀ first second, key first = key second → keep first = keep second)
    (elsewhere : keep change.entry = false) :
    (change.exec key table).filter keep = table.filter keep := by
  have gone {other : α} (same : key other = key change.entry) : keep other = false :=
    (keyed _ _ same).trans elsewhere
  cases change with
  | put entry =>
    simp only [Change.exec, put]
    split_ifs with present
    · clear present
      induction table with
      | nil => rfl
      | cons head tail ih =>
        rw [List.map_cons]
        split_ifs with same
        · have replaced : keep entry = false := elsewhere
          rw [List.filter_cons_of_neg (by simp [replaced]),
            List.filter_cons_of_neg (by simp [gone same]), ih]
        · rw [List.filter_cons, List.filter_cons, ih]
    · rw [List.filter_append, List.filter_singleton, show keep entry = false from elsewhere]
      exact List.append_nil _
  | drop entry =>
    rw [Change.exec, drop, List.filter_filter]
    apply List.filter_congr
    intro other _
    by_cases same : key other = key entry
    · simp [gone same]
    · simp [same]

/-- Entries a list of requests does not address stay as they are, in their order. -/
theorem filter_run {table : List α} {changes : List (Change α)} {keep : α → Bool}
    (keyed : ∀ first second, key first = key second → keep first = keep second)
    (elsewhere : ∀ change ∈ changes, keep change.entry = false) :
    (run key table changes).filter keep = table.filter keep := by
  induction changes generalizing table with
  | nil => rfl
  | cons change rest ih =>
    obtain ⟨here, later⟩ := List.forall_mem_cons.mp elsewhere
    exact (ih later).trans (filter_exec keyed here)

/-- A key that is never dropped stays present. -/
theorem key_mem_run {table : List α} {changes : List (Change α)} {name : κ}
    (kept : ∀ entry, .drop entry ∈ changes → key entry ≠ name)
    (present : ∃ entry ∈ table, key entry = name) :
    ∃ entry ∈ run key table changes, key entry = name := by
  induction changes generalizing table with
  | nil => exact present
  | cons change rest ih =>
    refine ih (fun entry member => kept entry (List.mem_cons_of_mem _ member)) ?_
    obtain ⟨entry, member, rfl⟩ := present
    by_cases same : key change.entry = key entry
    · cases change with
      | put fresh => exact ⟨fresh, mem_exec.mpr (.inl rfl), same⟩
      | drop gone => exact absurd same (kept gone (List.mem_cons_self ..))
    · exact ⟨entry, mem_exec.mpr (.inr ⟨member, same⟩), rfl⟩

/-! ## The difference to a wanted set -/

section Diff

variable [LinearOrder α]

/-- The owned part of a table in its normal form, as an ordered set. -/
def seen (owned : α → Bool) (norm : α → α) (table : List α) : List α :=
  ((table.filter owned).map norm).collect

variable (key) in
/-- Present entries whose key nothing wanted has. -/
def stale (present want : List α) : List α :=
  present.filter fun entry => !want.any fun wanted => key wanted = key entry

/-- Wanted entries that are not present as they are wanted. -/
def missing (present want : List α) : List α :=
  want.filter fun entry => entry ∉ present

variable (key) in
/-- The requests that close the difference: everything stale goes before anything comes. -/
def diff (present want : List α) : List (Change α) :=
  (stale key present want).map .drop ++ (missing present want).map .put

theorem mem_seen {owned : α → Bool} {norm : α → α} {table : List α} {item : α} :
    item ∈ seen owned norm table ↔ ∃ entry ∈ table, owned entry = true ∧ norm entry = item := by
  simp [seen, and_assoc]

omit [LinearOrder α] in
theorem mem_stale {present want : List α} {item : α} :
    item ∈ stale key present want ↔ item ∈ present ∧ ∀ wanted ∈ want, key wanted ≠ key item := by
  simp [stale]

theorem mem_missing {present want : List α} {item : α} :
    item ∈ missing present want ↔ item ∈ want ∧ item ∉ present := by
  simp [missing]

theorem drop_mem_diff {present want : List α} {item : α} :
    .drop item ∈ diff key present want ↔ item ∈ stale key present want := by
  simp [diff]

theorem put_mem_diff {present want : List α} {item : α} :
    .put item ∈ diff key present want ↔ item ∈ missing present want := by
  simp [diff]

variable (key) in
/-- What makes the difference well defined: ownership and the normal form respect keys, and the
wanted set is owned, normal and unambiguous. -/
structure Reconcilable (owned : α → Bool) (norm : α → α) (want : List α) : Prop where
  keyNorm : ∀ entry, key (norm entry) = key entry
  ownedKey : ∀ first second, key first = key second → owned first = owned second
  wantOwned : ∀ entry ∈ want, owned entry = true
  wantNormal : ∀ entry ∈ want, norm entry = entry
  wantUnique : ∀ first ∈ want, ∀ second ∈ want, key first = key second → first = second
  wantNodup : want.Nodup

namespace Reconcilable

variable {owned : α → Bool} {norm : α → α} {want table : List α}

omit [DecidableEq κ] in
/-- Distinct keys in a table stay distinct in its normal form. -/
theorem seen_unique (ready : Reconcilable key owned norm want)
    (unique : ∀ first ∈ table, ∀ second ∈ table, key first = key second → first = second) :
    ∀ first ∈ seen owned norm table, ∀ second ∈ seen owned norm table,
      key first = key second → first = second := by
  intro first left second right same
  obtain ⟨old, stored, _, rfl⟩ := mem_seen.mp left
  obtain ⟨other, kept, _, rfl⟩ := mem_seen.mp right
  rw [ready.keyNorm, ready.keyNorm] at same
  rw [unique old stored other kept same]

theorem diff_distinct (ready : Reconcilable key owned norm want)
    (unique : ∀ first ∈ table, ∀ second ∈ table, key first = key second → first = second) :
    (diff key (seen owned norm table) want).Pairwise
      fun first second => key first.entry ≠ key second.entry := by
  refine List.pairwise_append.mpr ⟨?_, ?_, ?_⟩
  · refine List.pairwise_map.mpr (List.Pairwise.filter _ ?_)
    refine (List.collect_pairwise _).imp_of_mem fun {first second} left right less same => ?_
    exact less.ne (ready.seen_unique unique first left second right same)
  · refine List.pairwise_map.mpr (List.Pairwise.filter _ ?_)
    refine ready.wantNodup.imp_of_mem fun {first second} left right other same => ?_
    exact other (ready.wantUnique first left second right same)
  · intro first left second right same
    obtain ⟨old, gone, rfl⟩ := List.mem_map.mp left
    obtain ⟨fresh, comes, rfl⟩ := List.mem_map.mp right
    exact (mem_stale.mp gone).2 fresh (mem_missing.mp comes).1 same.symm

variable {accepted : Change α → Bool}

/-- What a reconciler sees after some of its requests were carried out. -/
theorem mem_seen_run (ready : Reconcilable key owned norm want)
    (unique : ∀ first ∈ table, ∀ second ∈ table, key first = key second → first = second)
    {item : α} :
    item ∈ seen owned norm
        (run key table ((diff key (seen owned norm table) want).filter accepted)) ↔
      (item ∈ missing (seen owned norm table) want ∧ accepted (.put item) = true) ∨
      (item ∈ seen owned norm table ∧
        ∀ change ∈ diff key (seen owned norm table) want, accepted change = true →
          key change.entry ≠ key item) := by
  have after (entry : α) :
      entry ∈ run key table ((diff key (seen owned norm table) want).filter accepted) ↔ _ :=
    mem_run ((ready.diff_distinct unique).filter accepted)
  simp only [List.mem_filter, put_mem_diff, and_imp] at after
  rw [mem_seen]
  constructor
  · rintro ⟨entry, member, mine, rfl⟩
    rcases (after entry).mp member with ⟨comes, ok⟩ | ⟨stored, untouched⟩
    · rw [ready.wantNormal entry (mem_missing.mp comes).1]
      exact .inl ⟨comes, ok⟩
    · refine .inr ⟨mem_seen.mpr ⟨entry, stored, mine, rfl⟩, fun change planned ok => ?_⟩
      rw [ready.keyNorm]
      exact untouched change planned ok
  · rintro (⟨comes, ok⟩ | ⟨old, untouched⟩)
    · have wanted := (mem_missing.mp comes).1
      exact ⟨item, (after item).mpr (.inl ⟨comes, ok⟩), ready.wantOwned item wanted,
        ready.wantNormal item wanted⟩
    · obtain ⟨entry, stored, mine, rfl⟩ := mem_seen.mp old
      refine ⟨entry, (after entry).mpr (.inr ⟨stored, fun change planned ok => ?_⟩), mine, rfl⟩
      rw [← ready.keyNorm entry]
      exact untouched change planned ok

/-- The stale entries that remain are those whose removal was refused. -/
theorem stale_run (ready : Reconcilable key owned norm want)
    (unique : ∀ first ∈ table, ∀ second ∈ table, key first = key second → first = second) :
    stale key (seen owned norm
        (run key table ((diff key (seen owned norm table) want).filter accepted))) want =
      (stale key (seen owned norm table) want).filter fun entry => !accepted (.drop entry) := by
  apply List.eq_of_pairwise_lt
  · exact (List.collect_pairwise _).filter _
  · exact ((List.collect_pairwise _).filter _).filter _
  intro item
  rw [List.mem_filter, mem_stale, ready.mem_seen_run unique]
  constructor
  · rintro ⟨⟨comes, _⟩ | ⟨old, untouched⟩, unwanted⟩
    · exact absurd rfl (unwanted item (mem_missing.mp comes).1)
    · have gone := mem_stale.mpr ⟨old, unwanted⟩
      have refused := untouched (.drop item) (drop_mem_diff.mpr gone)
      exact ⟨gone, by simpa using fun ok => refused ok rfl⟩
  · rintro ⟨gone, refused⟩
    obtain ⟨old, unwanted⟩ := mem_stale.mp gone
    refine ⟨.inr ⟨old, fun change planned ok same => ?_⟩, unwanted⟩
    cases change with
    | put entry => exact unwanted entry (mem_missing.mp (put_mem_diff.mp planned)).1 same
    | drop entry =>
      have other := (mem_stale.mp (drop_mem_diff.mp planned)).1
      obtain rfl := ready.seen_unique unique entry other item old same
      simp [ok] at refused

/-- The entries still missing are those whose arrival was refused. -/
theorem missing_run (ready : Reconcilable key owned norm want)
    (unique : ∀ first ∈ table, ∀ second ∈ table, key first = key second → first = second) :
    missing (seen owned norm
        (run key table ((diff key (seen owned norm table) want).filter accepted))) want =
      (missing (seen owned norm table) want).filter fun entry => !accepted (.put entry) := by
  rw [missing, missing, List.filter_filter]
  apply List.filter_congr
  intro item wanted
  by_cases old : item ∈ seen owned norm table
  · -- Present as wanted: nothing planned has its key, so it stays.
    have stays : item ∈ seen owned norm
        (run key table ((diff key (seen owned norm table) want).filter accepted)) := by
      refine (ready.mem_seen_run unique).mpr (.inr ⟨old, fun change planned _ same => ?_⟩)
      cases change with
      | put entry =>
        obtain ⟨comes, absent⟩ := mem_missing.mp (put_mem_diff.mp planned)
        exact absent (ready.wantUnique entry comes item wanted same ▸ old)
      | drop entry => exact (mem_stale.mp (drop_mem_diff.mp planned)).2 item wanted same.symm
    simp [old, stays]
  · have arrives : item ∈ seen owned norm
        (run key table ((diff key (seen owned norm table) want).filter accepted)) ↔ _ :=
      ready.mem_seen_run unique
    simp only [mem_missing, wanted, old, not_false_eq_true, true_and, false_and, or_false] at arrives
    simp [arrives, old]

end Reconcilable

end Diff

end KeyedTable
