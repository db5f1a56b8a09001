import Mathlib.Data.Nat.ModEq
import Mathlib.Tactic.SplitIfs

/-! # Ones'-complement sums

The carry out of the top of a word is added back in at its bottom, so words add up as the residues modulo
`2 ^ w - 1` do, except that zero stands for a sum of zeros only. In which order words are added and when
the carries are brought back makes no difference.
-/

namespace OnesComplement

variable {w : ℕ}

/-- Two words added, with the carry brought back. -/
def add (a b : BitVec w) : BitVec w := if a.toNat + b.toNat < 2 ^ w then a + b else a + b + 1

def sum (words : List (BitVec w)) : BitVec w := words.foldl add 0

/-- A word stands for a number if it is congruent to it and is zero for zero only. -/
structure Stands (word : BitVec w) (n : ℕ) : Prop where
  modEq : word.toNat ≡ n [MOD 2 ^ w - 1]
  zero_iff : word.toNat = 0 ↔ n = 0

namespace Stands

variable {a b : BitVec w} {m n : ℕ}

/-- No other word does. -/
theorem unique (first : Stands a n) (second : Stands b n) : a = b := by
  apply BitVec.eq_of_toNat_eq
  have zero := first.zero_iff.trans second.zero_iff.symm
  have same : a.toNat ≡ b.toNat [MOD 2 ^ w - 1] := first.modEq.trans second.modEq.symm
  have bound := a.isLt
  have bound' := b.isLt
  by_cases none : a.toNat = 0
  · rw [none, zero.mp none]
  · -- both lie between 1 and the modulus, where residues are unique
    have shifted : a.toNat - 1 ≡ b.toNat - 1 [MOD 2 ^ w - 1] := by
      apply Nat.ModEq.add_right_cancel' 1
      rwa [Nat.sub_add_cancel (by omega), Nat.sub_add_cancel (by omega)]
    have := Nat.ModEq.eq_of_lt_of_lt shifted (by omega) (by omega)
    omega

theorem self (a : BitVec w) : Stands a a.toNat := ⟨rfl, Iff.rfl⟩

theorem toNat_add (a b : BitVec w) :
    (OnesComplement.add a b).toNat = if a.toNat + b.toNat < 2 ^ w then a.toNat + b.toNat
      else a.toNat + b.toNat - (2 ^ w - 1) := by
  have bound := a.isLt
  have bound' := b.isLt
  rw [OnesComplement.add]
  split_ifs with fits
  · rw [BitVec.toNat_add, Nat.mod_eq_of_lt fits]
  · have wide : 1 < 2 ^ w := by omega
    have carried : (a.toNat + b.toNat) % 2 ^ w = a.toNat + b.toNat - 2 ^ w := by
      rw [Nat.mod_eq_sub_mod (by omega), Nat.mod_eq_of_lt (by omega)]
    have one : (1 : BitVec w).toNat = 1 := Nat.mod_eq_of_lt wide
    rw [BitVec.toNat_add, BitVec.toNat_add, one, carried, Nat.mod_eq_of_lt (by omega)]
    omega

theorem add (first : Stands a m) (second : Stands b n) : Stands (OnesComplement.add a b) (m + n) := by
  have bound := a.isLt
  have bound' := b.isLt
  have zero := first.zero_iff
  have zero' := second.zero_iff
  have same : a.toNat + b.toNat ≡ m + n [MOD 2 ^ w - 1] := first.modEq.add second.modEq
  constructor
  · rw [toNat_add]
    split_ifs with fits
    · exact same
    · apply Nat.ModEq.trans _ same
      exact (Nat.modEq_iff_dvd' (by omega)).mpr ⟨1, by omega⟩
  · rw [toNat_add]
    split_ifs with fits
    · omega
    · omega

/-- The carries of a number that is too long for a word may be brought back at any time. -/
theorem of_fold (folded : Stands a (n % 2 ^ w + n / 2 ^ w)) : Stands a n := by
  have whole := Nat.div_add_mod n (2 ^ w)
  have positive : 0 < 2 ^ w := Nat.two_pow_pos w
  generalize n / 2 ^ w = high at folded whole
  generalize n % 2 ^ w = low at folded whole
  have carried : 2 ^ w * high = (2 ^ w - 1) * high + high := by
    rw [Nat.sub_mul, Nat.one_mul, Nat.sub_add_cancel (Nat.le_mul_of_pos_left _ positive)]
  constructor
  · apply folded.modEq.trans
    exact (Nat.modEq_iff_dvd' (by omega)).mpr ⟨high, by omega⟩
  · rw [folded.zero_iff, ← whole, Nat.add_eq_zero_iff, Nat.add_eq_zero_iff, Nat.mul_eq_zero]
    omega

/-- A word and its complement make all ones. -/
theorem complement (positive : 0 < w) (stands : Stands a n) : Stands (BitVec.allOnes w) (n + (~~~a).toNat) := by
  have bound := a.isLt
  have wide : 2 ^ 1 ≤ 2 ^ w := Nat.pow_le_pow_right (by decide) positive
  have zero := stands.zero_iff
  have same : n + (2 ^ w - 1 - a.toNat) ≡ a.toNat + (2 ^ w - 1 - a.toNat) [MOD 2 ^ w - 1] :=
    stands.modEq.symm.add_right _
  constructor
  · rw [BitVec.toNat_allOnes, BitVec.toNat_not]
    apply Nat.ModEq.trans _ same.symm
    rw [Nat.add_sub_cancel' (by omega)]
  · rw [BitVec.toNat_allOnes, BitVec.toNat_not]
    omega

end Stands

/-- The sum of words stands for their sum as numbers, in whatever order they are added. -/
theorem sum_stands (words : List (BitVec w)) : Stands (sum words) (words.map BitVec.toNat).sum := by
  suffices ∀ (a : BitVec w) (n : ℕ), Stands a n →
      Stands (words.foldl add a) (n + (words.map BitVec.toNat).sum) by
    have zero : Stands (0 : BitVec w) 0 := .self 0
    have := this 0 0 zero
    rwa [Nat.zero_add] at this
  induction words with
  | nil => exact fun a n stands => stands
  | cons word rest ih =>
    intro a n stands
    have further := ih (add a word) (n + word.toNat) (stands.add (.self word))
    rwa [Nat.add_assoc, ← List.sum_cons, ← List.map_cons] at further

end OnesComplement
