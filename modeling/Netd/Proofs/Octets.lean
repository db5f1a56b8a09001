import Mathlib.Data.List.GetD
import Mathlib.Data.List.Induction
import Netd.Model.Core.Data

/-! # Numbers and their octets

The number that octets spell has the bits of its last octet lowest, so a number reads back from as many
octets as it has.
-/

namespace Netd.Model

variable {w : ℕ}

theorem fromBeBytes_append_singleton (octets : Bytes) (last : U8) :
    (fromBeBytes (octets ++ [last]) : BitVec w) = fromBeBytes octets <<< 8 ||| last.setWidth w := by
  rw [fromBeBytes, List.foldl_append]
  rfl

/-- The bits of a number, by octets from the last one on. -/
theorem getLsbD_fromBeBytes (octets : Bytes) (i : ℕ) :
    (fromBeBytes octets : BitVec w).getLsbD i =
      (decide (i < w) && (octets.reverse.getD (i / 8) 0).getLsbD (i % 8)) := by
  induction octets using List.reverseRecOn generalizing i with
  | nil => simp [fromBeBytes]
  | append_singleton octets last ih =>
    rw [fromBeBytes_append_singleton, List.reverse_append, List.reverse_singleton, List.singleton_append]
    simp only [BitVec.getLsbD_or, BitVec.getLsbD_shiftLeft, BitVec.getLsbD_setWidth, ih]
    by_cases low : i < 8
    · have zero : i / 8 = 0 := Nat.div_eq_of_lt low
      have same : i % 8 = i := Nat.mod_eq_of_lt low
      simp [low, zero, same]
    · obtain ⟨j, rfl⟩ : ∃ j, i = j + 8 := ⟨i - 8, by omega⟩
      have high : (j + 8) / 8 = j / 8 + 1 := by omega
      have below : j + 8 < w → j < w := by omega
      by_cases inside : j + 8 < w
      · simp [high, inside, below inside]
      · simp [inside]

theorem length_toBeBytes (count : ℕ) (value : BitVec w) : (toBeBytes count value).length = count := by
  rw [toBeBytes, List.length_map, List.length_range]

/-- A number reads back from its octets. -/
theorem fromBeBytes_toBeBytes {count : ℕ} (value : BitVec w) (whole : w = 8 * count) :
    fromBeBytes (toBeBytes count value) = value := by
  apply BitVec.eq_of_getLsbD_eq
  intro i inside
  have octet : i / 8 < count := by omega
  have there : (toBeBytes count value).reverse.getD (i / 8) 0 = value.extractLsb' (8 * (i / 8)) 8 := by
    rw [List.getD_eq_getElem _ _ (by rwa [List.length_reverse, length_toBeBytes]), List.getElem_reverse]
    simp only [toBeBytes, List.getElem_map, List.getElem_range, List.length_map, List.length_range]
    congr 2
    omega
  have bit : 8 * (i / 8) + i % 8 = i := by omega
  have small : i % 8 < 8 := Nat.mod_lt i (by decide)
  rw [getLsbD_fromBeBytes, there, BitVec.getLsbD_extractLsb', bit]
  simp [inside, small]

/-- Octets are spelled by the number they spell. -/
theorem toBeBytes_fromBeBytes (octets : Bytes) (whole : w = 8 * octets.length) :
    toBeBytes octets.length (fromBeBytes octets : BitVec w) = octets := by
  apply List.ext_getElem (length_toBeBytes _ _)
  intro index inside within
  rw [length_toBeBytes] at inside
  apply BitVec.eq_of_getLsbD_eq
  intro bit small
  have place : (8 * (octets.length - 1 - index) + bit) / 8 = octets.length - 1 - index := by omega
  have shift : (8 * (octets.length - 1 - index) + bit) % 8 = bit := by omega
  have back : octets.reverse.getD (octets.length - 1 - index) 0 = octets[index] := by
    rw [List.getD_eq_getElem _ _ (by rw [List.length_reverse]; omega), List.getElem_reverse]
    congr 1
    omega
  simp only [toBeBytes, List.getElem_map, List.getElem_range, BitVec.getLsbD_extractLsb', getLsbD_fromBeBytes, place,
    shift, back]
  have low : 8 * (octets.length - 1 - index) + bit < w := by omega
  simp [small, low]

theorem setWidth_inj {v : ℕ} (wider : w ≤ v) {a b : BitVec w} : a.setWidth v = b.setWidth v ↔ a = b := by
  rw [← BitVec.toNat_inj, BitVec.toNat_setWidth_of_le wider, BitVec.toNat_setWidth_of_le wider, BitVec.toNat_inj]

/-- Octets that fit in one width spell their number in any. -/
theorem setWidth_fromBeBytes {v : ℕ} {octets : Bytes} (fits : 8 * octets.length ≤ w) :
    (fromBeBytes octets : BitVec w).setWidth v = fromBeBytes octets := by
  apply BitVec.eq_of_getLsbD_eq
  intro bit inside
  rw [BitVec.getLsbD_setWidth, getLsbD_fromBeBytes, getLsbD_fromBeBytes]
  by_cases narrow : bit < w
  · simp [inside, narrow]
  · have beyond : octets.reverse.getD (bit / 8) 0 = 0 := by
      apply List.getD_eq_default
      rw [List.length_reverse]
      omega
    rw [beyond]
    simp [narrow]

end Netd.Model
