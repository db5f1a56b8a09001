import Mathlib.Data.FinEnum
import Mathlib.Data.Nat.Bitwise
import Mathlib.Data.Nat.Prime.Basic
import Mathlib.Dynamics.PeriodicPts.Defs

/-! # Periods of xor-linear maps

A map of bit vectors that commutes with exclusive or is a linear map over the field with two
elements, and a polynomial over that field, written as the natural number of its coefficient bits,
acts on it. When a polynomial of degree `w` annihilates a map of `w`-bit vectors, powers of the map
are computed as powers of `x` modulo that polynomial. From one such power and, for each prime
divisor of `2 ^ w - 1`, one inverse, the map is seen to permute the nonzero vectors in a single cycle.
-/

namespace XorLinear

variable {w : ℕ}

/-- A map that commutes with exclusive or. -/
def IsXorLinear (f : BitVec w → BitVec w) : Prop := ∀ a b, f (a ^^^ b) = f a ^^^ f b

theorem IsXorLinear.map_zero {f : BitVec w → BitVec w} (linear : IsXorLinear f) : f 0#w = 0#w := by
  have twice := linear 0#w 0#w
  simp only [BitVec.xor_self] at twice
  exact twice

theorem IsXorLinear.comp {f g : BitVec w → BitVec w} (outer : IsXorLinear f) (inner : IsXorLinear g) :
    IsXorLinear (f ∘ g) := fun a b => (congrArg f (inner a b)).trans (outer (g a) (g b))

/-- The stages of a xorshift generator are linear. -/
theorem isXorLinear_shiftLeft (k : ℕ) : IsXorLinear fun s : BitVec w => s ^^^ (s <<< k) := by
  intro a b
  simp only [BitVec.shiftLeft_xor_distrib]
  ac_rfl

theorem isXorLinear_shiftRight (k : ℕ) : IsXorLinear fun s : BitVec w => s ^^^ (s >>> k) := by
  intro a b
  simp only [BitVec.ushiftRight_xor_distrib]
  ac_rfl

/-- A linear map that vanishes on every single bit vanishes. -/
theorem IsXorLinear.eq_zero {f : BitVec w → BitVec w} (linear : IsXorLinear f)
    (basis : ∀ i < w, f (BitVec.twoPow w i) = 0#w) (s : BitVec w) : f s = 0#w := by
  suffices below : ∀ k ≤ w, ∀ s : BitVec w, (∀ i, k ≤ i → s.getLsbD i = false) → f s = 0#w from
    below w le_rfl s fun i large => BitVec.getLsbD_of_ge s i large
  intro k
  induction k with
  | zero =>
    intro _ s clear
    have zero : s = 0#w := BitVec.eq_of_getLsbD_eq fun i _ => by simp [clear i]
    rw [zero, linear.map_zero]
  | succ k ih =>
    intro bound s clear
    by_cases bit : s.getLsbD k = true
    · -- Taking the highest bit away leaves a vector of lower bits only.
      have lower := ih (by omega) (s ^^^ BitVec.twoPow w k) fun i large => by
        rw [BitVec.getLsbD_xor, BitVec.getLsbD_twoPow]
        rcases Nat.lt_or_eq_of_le large with above | rfl
        · simp [clear i above, Nat.ne_of_lt above]
        · simp [bit, Nat.lt_of_succ_le bound]
      rwa [linear, basis k bound, BitVec.xor_zero] at lower
    · apply ih (by omega) s
      intro i large
      rcases Nat.lt_or_eq_of_le large with above | rfl
      · exact clear i above
      · exact Bool.not_eq_true _ ▸ bit

/-! ## Polynomials in a map -/

/-- The polynomial `p`, of degree less than `k`, in the map `f`, by Horner's rule. -/
def act (f : BitVec w → BitVec w) : ℕ → ℕ → BitVec w → BitVec w
  | 0, _, _ => 0#w
  | k + 1, p, s => (if p % 2 = 1 then s else 0#w) ^^^ f (act f k (p / 2) s)

section Act

variable {f : BitVec w → BitVec w} (linear : IsXorLinear f)

include linear

theorem act_poly_zero (k : ℕ) (s : BitVec w) : act f k 0 s = 0#w := by
  induction k with
  | zero => rfl
  | succ k ih => simp [act, ih, linear.map_zero]

theorem act_vector_zero (k p : ℕ) : act f k p 0#w = 0#w := by
  induction k generalizing p with
  | zero => rfl
  | succ k ih => simp [act, ih, linear.map_zero]

theorem act_poly_xor (k p q : ℕ) (s : BitVec w) : act f k (p ^^^ q) s = act f k p s ^^^ act f k q s := by
  induction k generalizing p q with
  | zero => simp [act]
  | succ k ih =>
    have bit : (if (p ^^^ q) % 2 = 1 then s else 0#w) =
        (if p % 2 = 1 then s else 0#w) ^^^ (if q % 2 = 1 then s else 0#w) := by
      rw [Nat.xor_mod_two_eq]
      rcases Nat.mod_two_eq_zero_or_one p with first | first <;>
        rcases Nat.mod_two_eq_zero_or_one q with second | second <;>
        simp [Nat.add_mod, first, second]
    rw [act, act, act, Nat.xor_div_two, ih, linear, bit]
    ac_rfl

theorem act_vector_xor (k p : ℕ) (s t : BitVec w) : act f k p (s ^^^ t) = act f k p s ^^^ act f k p t := by
  induction k generalizing p with
  | zero => simp [act]
  | succ k ih =>
    rw [act, act, act, ih, linear]
    split
    · ac_rfl
    · simp

/-- Bits that a polynomial does not have may be read as well. -/
theorem act_of_lt {k p : ℕ} (small : p < 2 ^ k) (s : BitVec w) : act f (k + 1) p s = act f k p s := by
  induction k generalizing p with
  | zero =>
    obtain rfl : p = 0 := by omega
    rw [act_poly_zero linear, act_poly_zero linear]
  | succ k ih =>
    rw [act, ih (by rw [pow_succ] at small; omega)]
    rfl

theorem act_one {k : ℕ} (positive : 0 < k) (s : BitVec w) : act f k 1 s = s := by
  obtain ⟨k, rfl⟩ := Nat.exists_eq_succ_of_ne_zero positive.ne'
  simp [act, act_poly_zero linear, linear.map_zero]

omit linear in
theorem act_double (k p : ℕ) (s : BitVec w) : act f (k + 1) (2 * p) s = f (act f k p s) := by
  simp [act]

end Act

/-! ## Arithmetic modulo a polynomial -/

/-- The product with `x` modulo `m`, for polynomials of degree less than `n`. -/
def timesX (n m p : ℕ) : ℕ := 2 * p ^^^ p / 2 ^ (n - 1) * m

/-- The product of `a` with the first `k` coefficients of `b`. -/
def times (n m a : ℕ) : ℕ → ℕ → ℕ
  | 0, _ => 0
  | k + 1, b => b % 2 * a ^^^ timesX n m (times n m a k (b / 2))

/-- A power of `a`, for an exponent of `k` bits. -/
def power (n m a : ℕ) : ℕ → ℕ → ℕ
  | 0, _ => 1
  | k + 1, e =>
    let half := power n m a k (e / 2)
    let square := times n m half n half
    if e % 2 = 1 then times n m a n square else square

/-- A polynomial of degree `w` that annihilates a linear map of `w`-bit vectors. -/
structure Annihilates (m : ℕ) (f : BitVec w → BitVec w) : Prop where
  linear : IsXorLinear f
  wide : 2 ≤ w
  least : 2 ^ w ≤ m
  most : m < 2 ^ (w + 1)
  basis : ∀ i < w, act f (w + 1) m (BitVec.twoPow w i) = 0#w

namespace Annihilates

variable {m : ℕ} {f : BitVec w → BitVec w} (annihilates : Annihilates m f)

include annihilates

theorem act_eq_zero (s : BitVec w) : act f (w + 1) m s = 0#w :=
  IsXorLinear.eq_zero (act_vector_xor annihilates.linear (w + 1) m) annihilates.basis s

theorem one_lt : 1 < 2 ^ w := Nat.one_lt_two_pow (by have := annihilates.wide; omega)

theorem two_lt : 2 < 2 ^ w := by
  calc 2 < 2 ^ 2 := by decide
    _ ≤ 2 ^ w := Nat.pow_le_pow_right (by omega) annihilates.wide

/-- The leading coefficient of a product with `x` is taken away by the modulus. -/
theorem timesX_lt {p : ℕ} (small : p < 2 ^ w) : timesX w m p < 2 ^ w := by
  have wide := annihilates.wide
  have halves : 2 ^ w = 2 * 2 ^ (w - 1) := by rw [← pow_succ']; congr 1; omega
  by_cases low : p < 2 ^ (w - 1)
  · rw [timesX, Nat.div_eq_of_lt low, Nat.zero_mul, Nat.xor_zero]
    omega
  · have one : p / 2 ^ (w - 1) = 1 :=
      Nat.div_eq_of_lt_le (by omega) (by omega)
    rw [timesX, one, Nat.one_mul]
    have leading {q : ℕ} (least : 2 ^ w ≤ q) (most : q < 2 ^ (w + 1)) : q.testBit w = true := by
      have quotient : q / 2 ^ w = 1 := Nat.div_eq_of_lt_le (by omega) (by rw [pow_succ] at most; omega)
      rw [Nat.testBit_eq_decide_div_mod_eq, quotient]
      rfl
    have double : 2 * p < 2 ^ (w + 1) := by rw [pow_succ]; omega
    apply Nat.lt_pow_two_of_testBit _
    intro i large
    rw [Nat.testBit_xor]
    rcases Nat.lt_or_eq_of_le large with above | rfl
    · have bound : 2 ^ (w + 1) ≤ 2 ^ i := Nat.pow_le_pow_right (by omega) above
      rw [Nat.testBit_lt_two_pow (double.trans_le bound), Nat.testBit_lt_two_pow (annihilates.most.trans_le bound)]
      rfl
    · rw [leading (by omega) double, leading annihilates.least annihilates.most]
      rfl

theorem act_timesX {p : ℕ} (small : p < 2 ^ w) (s : BitVec w) : act f w (timesX w m p) s = f (act f w p s) := by
  have wide := annihilates.wide
  have quotient : p / 2 ^ (w - 1) < 2 := by
    rw [Nat.div_lt_iff_lt_mul (Nat.two_pow_pos _), ← pow_succ']
    rwa [Nat.sub_add_cancel (by omega)]
  rw [← act_of_lt annihilates.linear (annihilates.timesX_lt small), timesX, act_poly_xor annihilates.linear,
    act_double]
  have vanishes : act f (w + 1) (p / 2 ^ (w - 1) * m) s = 0#w := by
    rcases Nat.le_one_iff_eq_zero_or_eq_one.mp (Nat.lt_succ_iff.mp quotient) with low | high
    · rw [low, Nat.zero_mul, act_poly_zero annihilates.linear]
    · rw [high, Nat.one_mul, annihilates.act_eq_zero]
  rw [vanishes, BitVec.xor_zero]

theorem times_lt {a : ℕ} (small : a < 2 ^ w) (k b : ℕ) : times w m a k b < 2 ^ w := by
  induction k generalizing b with
  | zero => exact Nat.two_pow_pos w
  | succ k ih =>
    refine Nat.xor_lt_two_pow ?_ (annihilates.timesX_lt (ih (b / 2)))
    rcases Nat.mod_two_eq_zero_or_one b with bit | bit
    · rw [bit, Nat.zero_mul]
      exact Nat.two_pow_pos w
    · rwa [bit, Nat.one_mul]

/-- Products of polynomials act by composition. -/
theorem act_times {a : ℕ} (small : a < 2 ^ w) (k b : ℕ) (s : BitVec w) :
    act f w (times w m a k b) s = act f k b (act f w a s) := by
  induction k generalizing b with
  | zero => rw [times, act_poly_zero annihilates.linear]; rfl
  | succ k ih =>
    rw [times, act_poly_xor annihilates.linear, annihilates.act_timesX (annihilates.times_lt small k _), ih, act]
    rcases Nat.mod_two_eq_zero_or_one b with bit | bit
    · rw [bit, Nat.zero_mul, act_poly_zero annihilates.linear]
      rfl
    · rw [bit, Nat.one_mul]
      rfl

theorem power_lt {a : ℕ} (small : a < 2 ^ w) (k e : ℕ) : power w m a k e < 2 ^ w := by
  induction k generalizing e with
  | zero => exact annihilates.one_lt
  | succ k ih =>
    have square := annihilates.times_lt (ih (e / 2)) w (power w m a k (e / 2))
    rw [power]
    split
    · exact annihilates.times_lt small w _
    · exact square

/-- Powers of polynomials act by iteration. -/
theorem act_power {a : ℕ} (small : a < 2 ^ w) {k e : ℕ} (bits : e < 2 ^ k) (s : BitVec w) :
    act f w (power w m a k e) s = (act f w a)^[e] s := by
  induction k generalizing e s with
  | zero =>
    obtain rfl : e = 0 := by omega
    exact act_one annihilates.linear (by have := annihilates.wide; omega) s
  | succ k ih =>
    have half : ∀ s, act f w (power w m a k (e / 2)) s = (act f w a)^[e / 2] s :=
      ih (by rw [pow_succ] at bits; omega)
    have square (s : BitVec w) : act f w (times w m (power w m a k (e / 2)) w (power w m a k (e / 2))) s =
        (act f w a)^[e / 2 + e / 2] s := by
      rw [annihilates.act_times (annihilates.power_lt small _ _), half, half, Function.iterate_add_apply]
    rw [power]
    split
    · next odd =>
      rw [annihilates.act_times small, square, ← Function.iterate_succ_apply]
      congr 2
      omega
    · next even =>
      rw [square]
      congr 2
      omega

/-- A power of the map itself is the power of `x`. -/
theorem act_power_x {k e : ℕ} (bits : e < 2 ^ k) (s : BitVec w) : act f w (power w m 2 k e) s = f^[e] s := by
  have wide := annihilates.wide
  have two : act f w 2 = f := by
    obtain ⟨n, rfl⟩ := Nat.exists_eq_succ_of_ne_zero (show w ≠ 0 by omega)
    funext s
    rw [show (2 : ℕ) = 2 * 1 from rfl, act_double, act_one annihilates.linear (by omega)]
  rw [annihilates.act_power annihilates.two_lt bits, two]

/-! ## The period -/

/-- The period is full if the full power of `x` is one and no proper one fixes a nonzero vector: each
`x ^ ((2 ^ w - 1) / p) - 1` has an inverse. -/
theorem minimalPeriod_eq (full : power w m 2 w (2 ^ w - 1) = 1)
    (proper : ∀ p, p.Prime → p ∣ 2 ^ w - 1 →
      ∃ inverse, times w m (power w m 2 w ((2 ^ w - 1) / p) ^^^ 1) w inverse = 1)
    {s : BitVec w} (nonzero : s ≠ 0#w) : Function.minimalPeriod f s = 2 ^ w - 1 := by
  have wide := annihilates.wide
  have unit (s : BitVec w) : act f w 1 s = s := act_one annihilates.linear (by omega) s
  have onePow := annihilates.one_lt
  have periodic : Function.IsPeriodicPt f (2 ^ w - 1) s := by
    have fixed := annihilates.act_power_x (k := w) (e := 2 ^ w - 1) (by omega) s
    rw [full, unit] at fixed
    exact fixed.symm
  by_contra other
  obtain ⟨quotient, product⟩ := periodic.minimalPeriod_dvd
  have quotientNe : quotient ≠ 1 := by
    rintro rfl
    exact other (by omega)
  obtain ⟨p, prime, rest, rfl⟩ := Nat.exists_prime_and_dvd quotientNe
  have divides : p ∣ 2 ^ w - 1 := ⟨Function.minimalPeriod f s * rest, by rw [product, Nat.mul_left_comm]⟩
  have shorter : (2 ^ w - 1) / p = Function.minimalPeriod f s * rest := by
    rw [product, Nat.mul_left_comm, Nat.mul_div_cancel_left _ prime.pos]
  have fixed : f^[(2 ^ w - 1) / p] s = s := by
    rw [shorter]
    exact (Function.isPeriodicPt_minimalPeriod f s).mul_const rest
  obtain ⟨inverse, inverts⟩ := proper p prime divides
  have acts := annihilates.act_power_x (k := w) (e := (2 ^ w - 1) / p)
    (lt_of_le_of_lt (Nat.div_le_self _ _) (by omega)) s
  rw [fixed] at acts
  have small := annihilates.power_lt annihilates.two_lt w ((2 ^ w - 1) / p)
  have vanishes : act f w (power w m 2 w ((2 ^ w - 1) / p) ^^^ 1) s = 0#w := by
    rw [act_poly_xor annihilates.linear, acts, unit, BitVec.xor_self]
  have recovered := annihilates.act_times (Nat.xor_lt_two_pow small onePow) w inverse s
  rw [inverts, unit, vanishes, act_vector_zero annihilates.linear] at recovered
  exact nonzero recovered

end Annihilates

/-! ## Orbits that reach everything -/

/-- A periodic nonzero vector never becomes zero: zero would stay. -/
theorem iterate_ne_zero {f : BitVec w → BitVec w} (linear : IsXorLinear f) {n : ℕ} (positive : 0 < n)
    {s : BitVec w} (periodic : Function.IsPeriodicPt f n s) (nonzero : s ≠ 0#w) (k : ℕ) : f^[k] s ≠ 0#w := by
  intro vanishes
  have back : f^[k * n - k] (f^[k] s) = s := by
    rw [← Function.iterate_add_apply, Nat.sub_add_cancel (Nat.le_mul_of_pos_right k positive)]
    exact periodic.const_mul k
  have stays : f^[k * n - k] 0#w = 0#w := Function.iterate_fixed linear.map_zero _
  rw [vanishes, stays] at back
  exact nonzero back.symm

/-- From a nonzero vector of full period every nonzero vector is reached. -/
theorem exists_iterate_eq {f : BitVec w → BitVec w} {s : BitVec w} (full : Function.minimalPeriod f s = 2 ^ w - 1)
    (nonzero : ∀ k, f^[k] s ≠ 0#w) {t : BitVec w} (target : t ≠ 0#w) : ∃ k < 2 ^ w - 1, f^[k] s = t := by
  classical
  let reached := (Finset.range (2 ^ w - 1)).image fun k => f^[k] s
  have count : reached.card = 2 ^ w - 1 := by
    rw [Finset.card_image_of_injOn, Finset.card_range]
    intro i left j right same
    exact Function.iterate_injOn_Iio_minimalPeriod (by simpa [full] using left) (by simpa [full] using right) same
  have within : reached ⊆ Finset.univ.erase 0#w := by
    intro v member
    obtain ⟨k, _, rfl⟩ := Finset.mem_image.mp member
    exact Finset.mem_erase.mpr ⟨nonzero k, Finset.mem_univ _⟩
  have all : reached = Finset.univ.erase 0#w := by
    apply Finset.eq_of_subset_of_card_le within
    rw [Finset.card_erase_of_mem (Finset.mem_univ _), count, Finset.card_univ, ← FinEnum.card_eq_fintypeCard,
      FinEnum.card_bitVec]
  have member : t ∈ reached := all ▸ Finset.mem_erase.mpr ⟨target, Finset.mem_univ _⟩
  obtain ⟨k, below, same⟩ := Finset.mem_image.mp member
  exact ⟨k, Finset.mem_range.mp below, same⟩

end XorLinear
