import Mathlib.Tactic.NormNum
import Mathlib.Tactic.NormNum.Prime
import Netd.Machine.Retry
import Netd.Math.XorLinear
import Netd.Model.Ndp.Engine

/-! # The generator reaches an acceptable identifier

The engine draws interface identifiers until one is neither reserved nor in use. The draws come from a
xorshift generator, which passes through all of its nonzero states before it repeats one; two steps at
a time it still does, since the number of those states is odd. A few states with different identifiers
are then enough: the loop meets all of them, and a prefix has too few addresses to exclude them all.
-/

namespace Netd.Model.Ndp

open XorLinear

theorem nextRandom_linear : IsXorLinear nextRandom :=
  (isXorLinear_shiftLeft 17).comp ((isXorLinear_shiftRight 7).comp (isXorLinear_shiftLeft 13))

/-- The characteristic polynomial of the generator. -/
def generatorPolynomial : ℕ := 0x1013ed4a358913201

theorem nextRandom_annihilates : Annihilates generatorPolynomial nextRandom where
  linear := nextRandom_linear
  wide := by decide
  least := by decide
  most := by decide
  basis := by decide +kernel

/-- For each prime divisor of the period, an inverse of `x` to the cofactor, minus one. -/
def periodInverses : List (ℕ × ℕ) :=
  [(3, 0xd742ca58f5d785e2), (5, 0xa3f64d1fb612f669), (17, 0x63f43995a1b49645), (257, 0x7d573a75b5260c4d),
    (641, 0x1ead61508d13286), (65537, 0xed7248a2317d33b1), (6700417, 0x483b08aa5d3741b5)]

theorem periodInverses_invert : ∀ entry ∈ periodInverses,
    times 64 generatorPolynomial (power 64 generatorPolynomial 2 64 ((2 ^ 64 - 1) / entry.1) ^^^ 1) 64 entry.2 = 1 := by
  decide +kernel

theorem prime_mem_periodInverses {p : ℕ} (prime : p.Prime) (divides : p ∣ 2 ^ 64 - 1) :
    ∃ inverse, (p, inverse) ∈ periodInverses := by
  have factored : (2 ^ 64 - 1 : ℕ) = 3 * 5 * 17 * 257 * 641 * 65537 * 6700417 := by norm_num
  rw [factored] at divides
  have factor {q : ℕ} (isPrime : q.Prime) (divides : p ∣ q) : p = q :=
    (Nat.prime_dvd_prime_iff_eq prime isPrime).mp divides
  simp only [prime.dvd_mul] at divides
  rcases divides with (((((divides | divides) | divides) | divides) | divides) | divides) | divides <;>
    obtain rfl := factor (by norm_num) divides <;> simp [periodInverses]

/-- The generator passes through every nonzero state. -/
theorem nextRandom_period {rng : U64} (nonzero : rng ≠ 0) :
    Function.minimalPeriod nextRandom rng = 2 ^ 64 - 1 := by
  refine nextRandom_annihilates.minimalPeriod_eq (by decide +kernel) (fun p prime divides => ?_) nonzero
  obtain ⟨inverse, member⟩ := prime_mem_periodInverses prime divides
  exact ⟨inverse, periodInverses_invert _ member⟩

theorem nextRandom_iterate_ne_zero {rng : U64} (nonzero : rng ≠ 0) (k : ℕ) : nextRandom^[k] rng ≠ 0 :=
  iterate_ne_zero nextRandom_linear (by decide)
    (nextRandom_period nonzero ▸ Function.isPeriodicPt_minimalPeriod nextRandom rng) nonzero k

theorem nextRandom_ne_zero (rng : U64) (nonzero : rng ≠ 0) : nextRandom rng ≠ 0 :=
  nextRandom_iterate_ne_zero nonzero 1

/-- What a generator begins with. -/
theorem or_one_ne_zero (seed : U64) : seed ||| 1 ≠ 0 := by
  intro zero
  have bit := congrArg (fun rng : U64 => rng.getLsbD 0) zero
  simp at bit

/-- Two steps at a time every nonzero state is met as well, since the period is odd. -/
theorem exists_two_steps {rng target : U64} (nonzero : rng ≠ 0) (goal : target ≠ 0) :
    ∃ k < generatorStates, (nextRandom^[2])^[k] rng = target := by
  have period : Function.minimalPeriod nextRandom^[2] rng = 2 ^ 64 - 1 := by
    have odd : (2 ^ 64 - 1 : ℕ).gcd 2 = 1 := by decide +kernel
    rw [Function.minimalPeriod_iterate_eq_div_gcd (by decide), nextRandom_period nonzero, odd, Nat.div_one]
  obtain ⟨k, below, reached⟩ := exists_iterate_eq period (fun k => by
    rw [← Function.iterate_mul]
    exact nextRandom_iterate_ne_zero nonzero (2 * k)) goal
  exact ⟨k, below.trans (by decide), reached⟩

/-! ## The loop -/

/-- A draw is two steps of the generator. -/
theorem after_drawIid (k : ℕ) (rng : U64) : Retry.after drawIid k rng = (nextRandom^[2])^[k] rng := rfl

/-- The bounded loop ends as the unbounded one does, given an acceptable draw within its bound. -/
theorem acceptedIid_ends (acceptable : U64 → Bool) {fuel k : ℕ} {rng : U64} (within : k ≤ fuel)
    (found : acceptable (drawIid (Retry.after drawIid k rng)).1 = true) :
    Retry.Ends drawIid acceptable rng (acceptedIid acceptable fuel rng) := by
  induction fuel generalizing k rng with
  | zero =>
    obtain rfl : k = 0 := by omega
    exact .accepted found
  | succ fuel ih =>
    rw [acceptedIid]
    split
    · next accepted => exact .accepted accepted
    · next rejected =>
      cases k with
      | zero => exact absurd found rejected
      | succ k =>
        rw [Retry.after_succ] at found
        exact .again (Bool.eq_false_iff.mpr rejected) (ih (by omega) found)

/-- A few states, with the identifiers drawn from them. -/
def witnessStates : List U64 := [1, 2, 3, 4, 5, 6]

def witnessIids : List U64 :=
  [0x408220410c011441, 0x8104408218002883, 0xc18660c314013cc2, 0x208810430005106, 0x428aa1453c014547,
    0x830cc18628007985]

theorem witnessStates_iids : witnessStates.map (fun rng => (drawIid rng).1) = witnessIids := by decide +kernel

theorem zero_not_mem_witnessStates : 0 ∉ witnessStates := by decide

theorem witnessIids_nodup : witnessIids.Nodup := by decide

theorem witnessIids_unreserved : witnessIids.any reservedIid = false := by decide +kernel

theorem join_injective (prefixAddr : Ipv6Addr) : Function.Injective (join prefixAddr) :=
  fun _ _ same => (BitVec.append_right_inj _).mp same

theorem taken_iff {p : Prefix} {address : Ipv6Addr} :
    p.taken address = true ↔ address ∈ p.stable :: p.temps.map Temp.address := by
  simp only [Prefix.taken, Bool.or_eq_true, beq_iff_eq, List.any_eq_true, List.mem_cons, List.mem_map]

/-- The addresses of a prefix with room for one more temporary address exclude not all of these. -/
theorem exists_acceptable (prefixAddr : Ipv6Addr) {p : Prefix} (few : p.temps.length ≤ maxTemps) :
    ∃ iid ∈ witnessIids, p.taken (join prefixAddr iid) = false := by
  by_contra none
  push Not at none
  have allTaken : witnessIids.map (join prefixAddr) ⊆ p.stable :: p.temps.map Temp.address := by
    intro address member
    obtain ⟨iid, known, rfl⟩ := List.mem_map.mp member
    exact taken_iff.mp (Bool.not_eq_false _ ▸ none iid known)
  have distinct := witnessIids_nodup.map (join_injective prefixAddr)
  have count := (distinct.subperm allTaken).length_le
  have six : witnessIids.length = 6 := rfl
  simp only [List.length_map, List.length_cons, six] at count
  simp only [maxTemps] at few
  omega

/-- What the loop looks for: an identifier neither reserved nor in use. -/
def unclaimed (prefixAddr : Ipv6Addr) (p : Prefix) (iid : U64) : Bool :=
  !reservedIid iid && !p.taken (join prefixAddr iid)

theorem unclaimed_iff {prefixAddr : Ipv6Addr} {p : Prefix} {iid : U64} :
    unclaimed prefixAddr p iid = true ↔ reservedIid iid = false ∧ p.taken (join prefixAddr iid) = false := by
  rw [unclaimed, Bool.and_eq_true, Bool.not_eq_true', Bool.not_eq_true']

/-- From every nonzero state some draw gives such an identifier. -/
theorem exists_unclaimed {rng : U64} (nonzero : rng ≠ 0) (prefixAddr : Ipv6Addr) {p : Prefix}
    (few : p.temps.length ≤ maxTemps) :
    ∃ k < generatorStates, unclaimed prefixAddr p (drawIid (Retry.after drawIid k rng)).1 = true := by
  obtain ⟨iid, known, free⟩ := exists_acceptable prefixAddr few
  have unreserved := Bool.not_eq_true _ ▸ List.any_eq_false.mp witnessIids_unreserved iid known
  rw [← witnessStates_iids] at known
  obtain ⟨target, member, rfl⟩ := List.mem_map.mp known
  obtain ⟨k, below, reached⟩ := exists_two_steps nonzero
    (show target ≠ 0 by rintro rfl; exact zero_not_mem_witnessStates member)
  refine ⟨k, below, unclaimed_iff.mpr ?_⟩
  rw [after_drawIid, reached]
  exact ⟨unreserved, free⟩

/-- So the loop ends, with the identifier that a new temporary address has. -/
theorem newTemp_ends {rng : U64} (nonzero : rng ≠ 0) (prefixAddr : Ipv6Addr) {p : Prefix}
    (few : p.temps.length ≤ maxTemps) : Retry.Ends drawIid (unclaimed prefixAddr p) rng
      (acceptedIid (unclaimed prefixAddr p) generatorStates rng) := by
  obtain ⟨k, below, found⟩ := exists_unclaimed nonzero prefixAddr few
  exact acceptedIid_ends (unclaimed prefixAddr p) below.le found

/-- A new temporary address is in the prefix, not reserved, and not yet in use. -/
theorem newTemp_address {rng : U64} (nonzero : rng ≠ 0) (now : ℕ) (prefixAddr : Ipv6Addr) {p : Prefix}
    (few : p.temps.length ≤ maxTemps) :
    ∃ iid, (newTemp rng now prefixAddr p).1.address = join prefixAddr iid ∧ reservedIid iid = false ∧
      p.taken (join prefixAddr iid) = false :=
  ⟨_, rfl, unclaimed_iff.mp (newTemp_ends nonzero prefixAddr few).acceptable_fst⟩

end Netd.Model.Ndp
