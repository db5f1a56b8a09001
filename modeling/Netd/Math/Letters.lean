import Mathlib.Data.List.Forall2
import Mathlib.Tactic.SplitIfs
import Mathlib.Order.Basic

/-! # Letters in upper and lower case

The case of a character moves the 26 letters by 32 and nothing else. So a character that is not a
letter is found in a text of either case, and texts that agree in one case agree in the other.
-/

namespace Letters

theorem toNat_toLower (c : Char) :
    c.toLower.toNat = if 65 ≤ c.toNat ∧ c.toNat ≤ 90 then c.toNat + 32 else c.toNat := by
  delta Char.toLower
  have bounds : c.val ≥ 'A'.val ∧ c.val ≤ 'Z'.val ↔ 65 ≤ c.toNat ∧ c.toNat ≤ 90 := by
    rw [ge_iff_le, UInt32.le_iff_toNat_le, UInt32.le_iff_toNat_le]
    rfl
  split_ifs with upper plain plain
  · have sum : (c.val + ('a'.val - 'A'.val)).toNat = (c.val.toNat + 32) % 4294967296 := UInt32.toNat_add _ _
    have small : c.val.toNat = c.toNat := rfl
    change (c.val + ('a'.val - 'A'.val)).toNat = _
    omega
  · exact absurd (bounds.mp upper) plain
  · exact absurd (bounds.mpr plain) upper
  · rfl

theorem toNat_toUpper (c : Char) :
    c.toUpper.toNat = if 97 ≤ c.toNat ∧ c.toNat ≤ 122 then c.toNat - 32 else c.toNat := by
  delta Char.toUpper
  have bounds : c.val ≥ 'a'.val ∧ c.val ≤ 'z'.val ↔ 97 ≤ c.toNat ∧ c.toNat ≤ 122 := by
    rw [ge_iff_le, UInt32.le_iff_toNat_le, UInt32.le_iff_toNat_le]
    rfl
  split_ifs with lower plain plain
  · have sum : (c.val + ('A'.val - 'a'.val)).toNat = (c.val.toNat + 4294967264) % 4294967296 :=
      UInt32.toNat_add _ _
    have small : c.val.toNat = c.toNat := rfl
    change (c.val + ('A'.val - 'a'.val)).toNat = _
    omega
  · exact absurd (bounds.mp lower) plain
  · exact absurd (bounds.mpr plain) lower
  · rfl

/-- Lower case moves letters only. -/
theorem toLower_eq_symbol {c d : Char} (symbol : d.toNat < 65) : c.toLower = d ↔ c = d := by
  rw [← Char.toNat_inj, ← Char.toNat_inj, toNat_toLower]
  split_ifs <;> omega

/-- Letters that compare equal in upper case compare equal in lower case, and the other way round. -/
theorem toUpper_eq_iff {c d : Char} : c.toUpper = d.toUpper ↔ c.toLower = d.toLower := by
  rw [← Char.toNat_inj, ← Char.toNat_inj, toNat_toUpper, toNat_toUpper, toNat_toLower, toNat_toLower]
  split_ifs <;> omega

theorem map_toUpper_eq_iff {first second : List Char} :
    first.map Char.toUpper = second.map Char.toUpper ↔ first.map Char.toLower = second.map Char.toLower := by
  induction first generalizing second with
  | nil => cases second <;> simp
  | cons c rest ih =>
    cases second with
    | nil => simp
    | cons d others => simp only [List.map_cons, List.cons.injEq, toUpper_eq_iff, ih]

/-- A small letter is what it and its capital become. -/
theorem toLower_eq_letter {c d : Char} (small : 97 ≤ d.toNat ∧ d.toNat ≤ 122) :
    c.toLower = d ↔ c = d ∨ c = d.toUpper := by
  rw [← Char.toNat_inj, ← Char.toNat_inj, ← Char.toNat_inj, toNat_toLower, toNat_toUpper, if_pos small]
  split_ifs <;> omega

/-- A text in small letters, in whichever case its letters are found. -/
theorem map_toLower_eq_iff {word text : List Char} (small : ∀ d ∈ word, 97 ≤ d.toNat ∧ d.toNat ≤ 122) :
    text.map Char.toLower = word ↔ List.Forall₂ (fun c d => c = d ∨ c = d.toUpper) text word := by
  induction word generalizing text with
  | nil => rw [List.map_eq_nil_iff, List.forall₂_nil_right_iff]
  | cons d rest ih =>
    obtain ⟨first, later⟩ := List.forall_mem_cons.mp small
    cases text with
    | nil => simp
    | cons c others => rw [List.map_cons, List.cons.injEq, List.forall₂_cons, toLower_eq_letter first, ih later]

end Letters
