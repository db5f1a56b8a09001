import Mathlib.Data.List.Nodup
import Mathlib.Order.Lattice

/-! # Sorting by a key

Where no two items have the same key, sorting by it puts the items in strict order, and gives the same
list whatever order the items came in. A list that is in order already is put in strict order by
keeping each item where it is first met.
-/

namespace Sorting

variable {α β : Type*} [LinearOrder β] (key : α → β)

def sortOn (items : List α) : List α := items.mergeSort fun a b => decide (key a ≤ key b)

theorem sortOn_perm (items : List α) : (sortOn key items).Perm items := List.mergeSort_perm _ _

variable {key}

theorem sortOn_le (items : List α) : (sortOn key items).Pairwise fun a b => key a ≤ key b := by
  have sorted := @List.pairwise_mergeSort _ (fun a b => decide (key a ≤ key b))
    (fun a b c first second => decide_eq_true (le_trans (of_decide_eq_true first) (of_decide_eq_true second)))
    (fun a b => by simpa only [Bool.or_eq_true, decide_eq_true_eq] using le_total (key a) (key b)) items
  exact sorted.imp of_decide_eq_true

theorem sortOn_lt {items : List α} (distinct : (items.map key).Nodup) :
    (sortOn key items).Pairwise fun a b => key a < key b := by
  have apart : ((sortOn key items).map key).Nodup := ((sortOn_perm key items).map key).nodup_iff.mpr distinct
  exact (sortOn_le items).imp₂ (fun _ _ le ne => lt_of_le_of_ne le ne) (List.pairwise_map.mp apart)

theorem sortOn_eq_of_perm {items others : List α} (distinct : (items.map key).Nodup) (same : items.Perm others) :
    sortOn key items = sortOn key others := by
  have distinct' : (others.map key).Nodup := (same.map key).nodup_iff.mp distinct
  apply List.Perm.eq_of_pairwise _ (sortOn_lt distinct) (sortOn_lt distinct')
  · exact ((sortOn_perm key items).trans same).trans (sortOn_perm key others).symm
  · exact fun a b _ _ less more => absurd less (lt_asymm more)

/-! ## Each item where it is first met -/

section First

variable {α : Type*} [BEq α]

/-- An item behind those met before, unless it is one of them. -/
def pushNew (met : List α) (item : α) : List α := if met.contains item then met else met ++ [item]

variable [LawfulBEq α]

theorem mem_foldl_pushNew {items met : List α} {item : α} :
    item ∈ items.foldl pushNew met ↔ item ∈ met ∨ item ∈ items := by
  induction items generalizing met with
  | nil => simp
  | cons head rest ih =>
    have pushed : item ∈ pushNew met head ↔ item ∈ met ∨ item = head := by
      unfold pushNew
      split
      · next known =>
        refine ⟨.inl, fun either => either.elim id ?_⟩
        rintro rfl
        exact List.contains_iff_mem.mp known
      · rw [List.mem_append, List.mem_singleton]
    rw [List.foldl_cons, ih, pushed, List.mem_cons, or_assoc]

theorem foldl_pushNew_nodup (items : List α) {met : List α} (nodup : met.Nodup) :
    (items.foldl pushNew met).Nodup := by
  apply List.foldlRecOn items pushNew nodup
  intro met nodup item _
  unfold pushNew
  split
  · exact nodup
  · next new =>
    apply List.Nodup.append nodup (List.nodup_singleton item)
    rw [List.disjoint_singleton]
    exact fun known => new (List.contains_iff_mem.mpr known)

omit [LawfulBEq α] in
theorem foldl_pushNew_sublist (items met : List α) : (items.foldl pushNew met).Sublist (met ++ items) := by
  induction items generalizing met with
  | nil => simp
  | cons head rest ih =>
    rw [List.foldl_cons]
    apply (ih (pushNew met head)).trans
    unfold pushNew
    split
    · exact (List.sublist_cons_self head rest).append_left met
    · exact (List.append_assoc met [head] rest) ▸ List.Sublist.refl _

/-- Items in order are put in strict order, where the order tells different items apart. -/
theorem foldl_pushNew_lt {items : List α} {key : α → β} (ordered : items.Pairwise fun a b => key a ≤ key b)
    (apart : ∀ a ∈ items, ∀ b ∈ items, key a = key b → a = b) :
    (items.foldl pushNew []).Pairwise fun a b => key a < key b := by
  have sub : (items.foldl pushNew []).Sublist items := foldl_pushNew_sublist items []
  have nodup : (items.foldl pushNew []).Nodup := foldl_pushNew_nodup items List.nodup_nil
  refine ((ordered.sublist sub).and nodup).imp_of_mem fun {a b} left right both => ?_
  apply lt_of_le_of_ne both.1
  intro same
  exact both.2 (apart a (sub.subset left) b (sub.subset right) same)

end First

end Sorting
