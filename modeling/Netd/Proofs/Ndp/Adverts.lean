import Mathlib.Order.Lattice.Nat
import Mathlib.Data.Nat.Basic
import Netd.Proofs.Ndp.Deadlines

/-! # What an advertisement does to the stored prefixes

A prefix option updates the prefix it names, forms a new one, or does nothing; `receivePrefix_lookup`
says so for every key at once. The lifetime arithmetic is done on ends in `WithTop ℕ`, where a
lifetime without an end is `⊤`.
-/

namespace Netd.Model.Ndp.Engine

open Deadline (ending)

/-! ## Lifetimes -/

/-- The two-hour rule for one option: what remains is not cut below two hours, and the new end is not
later than both the old one and the one received. -/
theorem nextValidUntil_bounds (now : ℕ) (validUntil : Option ℕ) (valid : U32) :
    min (ending validUntil) (WithTop.some (now + twoHours)) ≤ ending (nextValidUntil now validUntil valid) ∧
      ending (nextValidUntil now validUntil valid) ≤ max (ending validUntil) (ending («until» now valid)) := by
  unfold nextValidUntil «until»
  simp only [min_le_iff, le_max_iff]
  cases validUntil with
  | none =>
    simp only [Option.map_none, Deadline.ending_none, le_top, true_or, and_true]
    split_ifs <;> simp only [Deadline.ending_none, Deadline.ending_some, le_top, or_true, WithTop.coe_le_coe]
    all_goals omega
  | some ends =>
    simp only [Option.map_some]
    split_ifs <;> simp only [Deadline.ending_none, Deadline.ending_some, le_top, or_true, and_true,
      WithTop.coe_le_coe]
    all_goals omega

theorem until_mono (now : ℕ) {preferred valid : U32} (le : preferred ≤ valid) :
    ending («until» now preferred) ≤ ending («until» now valid) := by
  have le' : preferred.toNat ≤ valid.toNat := le
  unfold «until»
  split_ifs with first second second
  · exact le_rfl
  · exact absurd (BitVec.eq_of_toNat_eq (by
      have most := valid.isLt
      rw [first] at le'
      simp only [BitVec.toNat_allOnes] at le' ⊢
      omega)) second
  · exact le_top
  · simp only [Deadline.ending_some, WithTop.coe_le_coe, Duration.fromSecs]
    omega

/-- A preferred lifetime that does not exceed the valid one does not end after it either. -/
theorem until_le_nextValidUntil (now : ℕ) (validUntil : Option ℕ) {preferred valid : U32}
    (le : preferred ≤ valid) :
    ending («until» now preferred) ≤ ending (nextValidUntil now validUntil valid) := by
  have told := until_mono now le
  have bounded (received : U32) (short : Duration.fromSecs received.toNat ≤ twoHours) :
      ending («until» now received) = WithTop.some (now + Duration.fromSecs received.toNat) := by
    rw [«until», if_neg, Deadline.ending_some]
    rintro rfl
    simp only [BitVec.toNat_allOnes, twoHours, Duration.fromSecs] at short
    omega
  unfold nextValidUntil
  cases validUntil with
  | none =>
    simp only [Option.map_none]
    split_ifs with long
    · exact told
    · refine told.trans ?_
      rw [bounded valid (not_lt.mp long), Deadline.ending_some, WithTop.coe_le_coe]
      omega
  | some ends =>
    simp only [Option.map_some]
    split_ifs with long short
    · exact told
    all_goals
      simp only [not_or, not_lt] at long
      refine told.trans ?_
      rw [bounded valid long.1, Deadline.ending_some, WithTop.coe_le_coe]
      omega

/-! ## One option -/

section Options

variable (sha1 : Bytes → BitVec 160)

/-- A stored prefix after an option that names it. -/
def told (now : ℕ) (info : PrefixInfo) (p : Prefix) : Prefix :=
  { p with
    onLink := info.onLink
    preferredUntil := «until» now info.preferred
    validUntil := nextValidUntil now p.validUntil info.valid }

/-- A prefix formed from an option, before its temporary address. -/
def formed (config : Config) (now : ℕ) (info : PrefixInfo) : Prefix where
  onLink := info.onLink
  validUntil := «until» now info.valid
  preferredUntil := «until» now info.preferred
  stable := stableAddress sha1 config info.prefixAddr
  temps := []

/-- What one prefix option can do to the prefix stored under a key. -/
inductive Told (now : ℕ) (e : Engine) (info : PrefixInfo) (key : Ipv6Addr ×ₗ U8) : Option Prefix → Prop
  /-- The option is about another prefix, or of no use. -/
  | kept (other : usable info = true → key = infoKey info → e.prefixes.lookup key = none ∧ info.valid = 0) :
      Told now e info key (e.prefixes.lookup key)
  | updated {p : Prefix} (isUsable : usable info = true) (same : key = infoKey info)
      (stored : e.prefixes.lookup key = some p) : Told now e info key (some (told now info p))
  | formed {temps : List Temp} (isUsable : usable info = true) (same : key = infoKey info)
      (absent : e.prefixes.lookup key = none) (lasting : 0 < info.valid)
      (temporary : temps = [] ∨ temps = [(newTemp e.rng now info.prefixAddr (formed sha1 e.config now info)).1]) :
      Told now e info key (some { formed sha1 e.config now info with temps := temps })

theorem receivePrefix_told (now : ℕ) (e : Engine) (info : PrefixInfo) (key : Ipv6Addr ×ₗ U8) :
    Told sha1 now e info key ((receivePrefix sha1 now e info).prefixes.lookup key) := by
  unfold receivePrefix
  split
  · next isUsable =>
    split
    · next p stored =>
      dsimp only
      rw [SortedMap.lookup_modify]
      split_ifs with same
      · subst same
        rw [stored]
        exact .updated isUsable rfl stored
      · exact .kept fun _ other => absurd other same
    · next absent =>
      split
      · next lasting =>
        dsimp only
        split
        all_goals
          dsimp only
          rw [SortedMap.lookup_insert]
          split_ifs with same
        · exact .formed isUsable same (same ▸ absent) lasting (.inr rfl)
        · exact .kept fun _ other => absurd other same
        · exact .formed isUsable same (same ▸ absent) lasting (.inl rfl)
        · exact .kept fun _ other => absurd other same
      · next zero =>
        refine .kept fun _ same => ⟨same ▸ absent, ?_⟩
        exact BitVec.eq_of_toNat_eq (Nat.le_zero.mp (not_lt.mp zero))
  · next useless => exact .kept fun isUsable => absurd isUsable useless

end Options

end Netd.Model.Ndp.Engine
