import Mathlib.Tactic.IntervalCases
import Netd.Proofs.Dhcp4.Lease

/-! # The shape of a lease

Whatever a server sends, a lease that is read from it can be configured: an address, a prefix that is the
mask's where the mask is one, times in order. No value the server chooses makes the arithmetic overflow: the
same reading with every operation checked has a result, and it is the same.
-/

namespace Netd.Model.Dhcp4

/-! ## Masks -/

/-- The mask of a prefix. -/
def leadingOnes (length : ℕ) : U32 := BitVec.allOnes 32 <<< (32 - length)

theorem toNat_leadingOnes {length : ℕ} (fits : length ≤ 32) :
    (leadingOnes length).toNat = 2 ^ 32 - 2 ^ (32 - length) := by
  unfold leadingOnes
  interval_cases length <;> rfl

theorem maskPrefix_leadingOnes {length : ℕ} (nonempty : 1 ≤ length) (fits : length ≤ 32) :
    maskPrefix (leadingOnes length) = some (BitVec.ofNat 8 length) := by
  unfold leadingOnes
  interval_cases length <;> decide

/-- The test by one subtraction is that of contiguity. -/
theorem eq_leadingOnes_of_test {mask : U32} (nonzero : mask ≠ 0)
    (filled : mask ||| (mask - 1) = BitVec.allOnes 32) :
    ∃ length, 1 ≤ length ∧ length ≤ 32 ∧ mask = leadingOnes length := by
  have bounded := mask.isLt
  have positive : 0 < mask.toNat := Nat.pos_of_ne_zero fun zero => nonzero (BitVec.eq_of_toNat_eq zero)
  have less : (mask - 1).toNat = mask.toNat - 1 := BitVec.toNat_sub_of_le (BitVec.le_def.mpr positive)
  -- What is missing from the mask up to the top has one bit.
  have clear : ~~~mask &&& ~~~(mask - 1) = 0 := by
    rw [← BitVec.not_or, filled]
    decide
  have disjoint : (2 ^ 32 - mask.toNat) &&& (2 ^ 32 - mask.toNat - 1) = 0 := by
    have both := congrArg BitVec.toNat clear
    rw [BitVec.toNat_and, BitVec.toNat_not, BitVec.toNat_not, less] at both
    have first : 2 ^ 32 - 1 - mask.toNat = 2 ^ 32 - mask.toNat - 1 := by omega
    have second : 2 ^ 32 - 1 - (mask.toNat - 1) = 2 ^ 32 - mask.toNat := by omega
    rw [first, second, Nat.and_comm] at both
    exact both
  obtain ⟨shift, power⟩ := (Nat.and_sub_one_eq_zero_iff_isPowerOfTwo (by omega)).mp disjoint
  have inside : shift < 32 := by
    apply (Nat.pow_lt_pow_iff_right (a := 2) (by decide)).mp
    omega
  refine ⟨32 - shift, by omega, by omega, BitVec.eq_of_toNat_eq ?_⟩
  rw [toNat_leadingOnes (by omega), Nat.sub_sub_self (by omega), ← power]
  omega

theorem maskPrefix_eq_some_iff {mask : U32} {length : U8} :
    maskPrefix mask = some length ↔ 1 ≤ length.toNat ∧ length.toNat ≤ 32 ∧ mask = leadingOnes length.toNat := by
  constructor
  · intro accepted
    have test : mask ≠ 0 ∧ mask ||| (mask - 1) = BitVec.allOnes 32 := by
      by_contra failed
      rw [maskPrefix, if_neg failed] at accepted
      contradiction
    obtain ⟨ones, nonempty, fits, rfl⟩ := eq_leadingOnes_of_test test.1 test.2
    rw [maskPrefix_leadingOnes nonempty fits] at accepted
    obtain rfl := Option.some.inj accepted
    rw [BitVec.toNat_ofNat, Nat.mod_eq_of_lt (by omega)]
    exact ⟨nonempty, fits, rfl⟩
  · rintro ⟨nonempty, fits, rfl⟩
    rw [maskPrefix_leadingOnes nonempty fits, BitVec.ofNat_toNat, BitVec.setWidth_eq]

/-! ## Arithmetic with its overflows -/

/-- A sum, unless it overflows. -/
def checkedAdd {w : ℕ} (x y : BitVec w) : Option (BitVec w) := if x.uaddOverflow y then none else some (x + y)

/-- A difference, unless it underflows. -/
def checkedSub {w : ℕ} (x y : BitVec w) : Option (BitVec w) := if x.usubOverflow y then none else some (x - y)

/-- A product, unless it overflows. -/
def checkedMul {w : ℕ} (x y : BitVec w) : Option (BitVec w) := if x.umulOverflow y then none else some (x * y)

/-- A narrower number, unless it loses its top. -/
def checkedNarrow (v : ℕ) {w : ℕ} (x : BitVec w) : Option (BitVec v) :=
  if x.toNat < 2 ^ v then some (x.setWidth v) else none

/-- A remainder, unless the divisor is zero. -/
def checkedRem {w : ℕ} (x y : BitVec w) : Option (BitVec w) := if y = 0 then none else some (x % y)

/-- A shift, unless it is by the width or more. -/
def checkedShr {w : ℕ} (x : BitVec w) (count : ℕ) : Option (BitVec w) :=
  if count < w then some (x >>> count) else none

theorem checkedAdd_eq {w : ℕ} {x y : BitVec w} (fits : x.toNat + y.toNat < 2 ^ w) :
    checkedAdd x y = some (x + y) := by
  rw [checkedAdd, BitVec.uaddOverflow, if_neg (by simpa using fits)]

theorem checkedSub_eq {w : ℕ} {x y : BitVec w} (fits : y.toNat ≤ x.toNat) : checkedSub x y = some (x - y) := by
  rw [checkedSub, BitVec.usubOverflow, if_neg (by simpa using fits)]

theorem checkedMul_eq {w : ℕ} {x y : BitVec w} (fits : x.toNat * y.toNat < 2 ^ w) :
    checkedMul x y = some (x * y) := by
  rw [checkedMul, BitVec.umulOverflow, if_neg (by simpa using fits)]

theorem checkedMul_eq_none {w : ℕ} {x y : BitVec w} (large : 2 ^ w ≤ x.toNat * y.toNat) : checkedMul x y = none := by
  rw [checkedMul, BitVec.umulOverflow, if_pos (by simpa using large)]

/-- `maskPrefix`, with its overflows: the subtraction is made for a mask that is not zero. -/
def maskPrefixChecked (mask : U32) : Option (Option U8) :=
  if mask = 0 then some none
  else (checkedSub mask 1).bind fun less =>
    if mask ||| less = BitVec.allOnes 32 then (checkedNarrow 8 (BitVec.ofNat 32 (countOnes mask))).map some
    else some none

namespace Lease

/-- `renewalTime`, with its overflows: the subtraction is made for an explicit time that is not zero. -/
def renewalTimeChecked (options : Options) (leaseTime : U32) : Option U32 :=
  match options.u32 option.renewalT1 with
  | none => some (leaseTime / 2)
  | some t =>
    if 0 < t then (checkedSub leaseTime 2).map fun bound => if t < bound then t else leaseTime / 2
    else some (leaseTime / 2)

/-- `rebindingTime`, with its overflows: the default is computed whether or not it is used. -/
def rebindingTimeChecked (options : Options) (leaseTime t1 : U32) : Option U32 :=
  (checkedMul (leaseTime.setWidth 64) 7).bind fun product =>
    (checkedNarrow 32 (product / 8)).bind fun most =>
      (checkedAdd t1 1).bind fun next =>
        (checkedSub leaseTime 1).map fun last =>
          ((options.u32 option.rebindingT2).filter fun t => decide (t1 < t) && decide (t < leaseTime)).getD
            (min (max most next) last)

/-- `fromAck`, with its overflows. -/
def fromAckChecked (message : Message) : Option (Option Lease) :=
  let o := message.options
  let address := message.yiaddr
  if address.isUnspecified then some none
  else
    match o.ipv4 option.serverId, o.u32 option.leaseTime with
    | some server, some leaseTime =>
      if leaseTime < 4 then some none
      else
        (match o.ipv4 option.subnetMask with
          | none => some none
          | some mask => maskPrefixChecked mask).bind fun masked =>
        let staticRoutes := ((o.get option.classlessStaticRoute).bind decodeClasslessRoutes).getD []
        (renewalTimeChecked o leaseTime).bind fun t1 =>
        (rebindingTimeChecked o leaseTime t1).map fun t2 =>
          some
            { address := address
              prefixLength := masked.getD (classfulPrefix address)
              server := server
              routers := if staticRoutes.isEmpty then o.ipv4List option.router else []
              dns := o.ipv4List option.dns
              domain := o.string option.domainName
              search := ((o.get option.domainSearch).map decodeDomainSearch).getD []
              hostname := o.string option.hostname
              mtu := (o.u16 option.mtu).filter fun m => decide (68 ≤ m)
              broadcast := o.ipv4 option.broadcast
              ntp := o.ipv4List option.ntp
              staticRoutes := staticRoutes
              leaseTime := leaseTime
              t1 := t1
              t2 := t2 }
    | _, _ => some none

end Lease

theorem maskPrefixChecked_eq (mask : U32) : maskPrefixChecked mask = some (maskPrefix mask) := by
  have few : countOnes mask ≤ 32 := by
    rw [countOnes]
    exact (List.length_filter_le _ _).trans_eq List.length_range
  by_cases zero : mask = 0
  · rw [maskPrefixChecked, if_pos zero, maskPrefix, if_neg fun test => test.1 zero]
  · have positive : (1 : U32).toNat ≤ mask.toNat :=
      Nat.pos_of_ne_zero fun none => zero (BitVec.eq_of_toNat_eq none)
    have counted : (BitVec.ofNat 32 (countOnes mask)).toNat = countOnes mask := by
      rw [BitVec.toNat_ofNat, Nat.mod_eq_of_lt (by omega)]
    have narrow : checkedNarrow 8 (BitVec.ofNat 32 (countOnes mask)) = some (BitVec.ofNat 8 (countOnes mask)) := by
      rw [checkedNarrow, counted, if_pos (by omega), BitVec.setWidth_ofNat_of_le (by decide)]
    rw [maskPrefixChecked, if_neg zero, checkedSub_eq positive, Option.bind_some, narrow, maskPrefix]
    by_cases filled : mask ||| (mask - 1) = BitVec.allOnes 32
    · rw [if_pos filled, if_pos ⟨zero, filled⟩]
      rfl
    · rw [if_neg filled, if_neg fun test => filled test.2]

namespace Lease

theorem renewalTimeChecked_eq (options : Options) {leaseTime : U32} (long : 4 ≤ leaseTime.toNat) :
    renewalTimeChecked options leaseTime = some (renewalTime options leaseTime) := by
  have less : checkedSub leaseTime 2 = some (leaseTime - 2) := checkedSub_eq (show 2 ≤ leaseTime.toNat by omega)
  rw [renewalTimeChecked, renewalTime, less]
  cases options.u32 option.renewalT1 with
  | none => rfl
  | some t =>
    dsimp only
    rw [Option.filter_some]
    by_cases positive : 0 < t
    · rw [if_pos positive, decide_eq_true positive, Bool.true_and, Option.map_some]
      by_cases below : t < leaseTime - 2
      · rw [if_pos below, if_pos (decide_eq_true below)]
        rfl
      · rw [if_neg below, if_neg (by simpa using below)]
        rfl
    · rw [if_neg positive, decide_eq_false positive, Bool.false_and, if_neg Bool.false_ne_true]
      rfl

theorem rebindingTimeChecked_eq (options : Options) {leaseTime t1 : U32} (room : t1.toNat + 2 ≤ leaseTime.toNat) :
    rebindingTimeChecked options leaseTime t1 = some (rebindingTime options leaseTime t1) := by
  have bounded := leaseTime.isLt
  have wide : (leaseTime.setWidth 64).toNat = leaseTime.toNat := by
    rw [BitVec.toNat_setWidth, Nat.mod_eq_of_lt (by omega)]
  have seven : (7 : BitVec 64).toNat = 7 := rfl
  have one : (1 : U32).toNat = 1 := rfl
  have fits : (leaseTime.setWidth 64).toNat * (7 : BitVec 64).toNat < 2 ^ 64 := by
    rw [wide, seven]
    omega
  -- Seven eighths of a number of 32 bits have 32 bits.
  have narrow : (leaseTime.setWidth 64 * 7 / 8).toNat < 2 ^ 32 := by
    rw [BitVec.toNat_udiv, BitVec.toNat_mul, Nat.mod_eq_of_lt fits, wide, seven]
    change leaseTime.toNat * 7 / 8 < 2 ^ 32
    omega
  have product := checkedMul_eq fits
  have next : checkedAdd t1 1 = some (t1 + 1) := checkedAdd_eq (by rw [one]; omega)
  have last : checkedSub leaseTime 1 = some (leaseTime - 1) := checkedSub_eq (by rw [one]; omega)
  rw [rebindingTimeChecked, product, Option.bind_some, checkedNarrow, if_pos narrow, Option.bind_some, next,
    Option.bind_some, last]
  rfl

/-- No value of a message makes the reading of it overflow. -/
theorem fromAckChecked_eq (message : Message) : fromAckChecked message = some (fromAck message) := by
  have masked : (match message.options.ipv4 option.subnetMask with
      | none => some none
      | some mask => maskPrefixChecked mask) = some ((message.options.ipv4 option.subnetMask).bind maskPrefix) := by
    cases message.options.ipv4 option.subnetMask with
    | none => rfl
    | some mask => exact maskPrefixChecked_eq mask
  unfold fromAckChecked fromAck
  dsimp only
  split
  · rfl
  · cases message.options.ipv4 option.serverId with
    | none => rfl
    | some server =>
      cases message.options.u32 option.leaseTime with
      | none => rfl
      | some leaseTime =>
        dsimp only [Option.bind_some]
        split
        · rfl
        · next long =>
          have enough : 4 ≤ leaseTime.toNat := Nat.not_lt.mp long
          have room := (renewalTime_bounds message.options enough).2
          rw [masked, Option.bind_some, renewalTimeChecked_eq _ enough, Option.bind_some,
            rebindingTimeChecked_eq _ room]
          rfl

end Lease

/-! ## Leases -/

theorem classfulPrefix_bounds (address : Ipv4Addr) :
    1 ≤ (classfulPrefix address).toNat ∧ (classfulPrefix address).toNat ≤ 32 := by
  unfold classfulPrefix
  dsimp only
  split
  · decide
  · split <;> decide

/-- A lease that can be configured, as the message it was read from has it. -/
structure Lease.Sound (message : Message) (lease : Lease) : Prop where
  address : lease.address ≠ Ipv4Addr.unspecified
  leaseTime : 4 ≤ lease.leaseTime.toNat
  times : lease.Shaped
  bounded : 1 ≤ lease.prefixLength.toNat ∧ lease.prefixLength.toNat ≤ 32
  masked : ∀ length, 1 ≤ length → length ≤ 32 →
    message.options.ipv4 option.subnetMask = some (leadingOnes length) → lease.prefixLength.toNat = length
  classful : (∀ length, 1 ≤ length → length ≤ 32 →
    message.options.ipv4 option.subnetMask ≠ some (leadingOnes length)) →
      lease.prefixLength = classfulPrefix lease.address
  mtu : ∀ mtu ∈ lease.mtu, 68 ≤ mtu.toNat
  routers : lease.staticRoutes ≠ [] → lease.routers = []

namespace Lease

theorem fromAck_sound {message : Message} {lease : Lease} (accepted : fromAck message = some lease) :
    Sound message lease := by
  have read := fromAck_read accepted
  have prefixLength := read.prefixLength
  refine ⟨read.address, read.long, fromAck_shaped accepted, ?_, ?_, ?_, ?_, ?_⟩
  · -- Either prefix is in range: the mask's by its test, the class's by its three values.
    cases masked : (message.options.ipv4 option.subnetMask).bind maskPrefix with
    | none =>
      rw [prefixLength, masked, Option.getD_none]
      exact classfulPrefix_bounds lease.address
    | some length =>
      obtain ⟨mask, -, read⟩ := Option.bind_eq_some_iff.mp masked
      obtain ⟨nonempty, fits, -⟩ := maskPrefix_eq_some_iff.mp read
      rw [prefixLength, masked, Option.getD_some]
      exact ⟨nonempty, fits⟩
  · intro length nonempty fits mask
    rw [prefixLength, mask, Option.bind_some, maskPrefix_leadingOnes nonempty fits, Option.getD_some,
      BitVec.toNat_ofNat, Nat.mod_eq_of_lt (by omega)]
  · intro other
    have unmasked : (message.options.ipv4 option.subnetMask).bind maskPrefix = none := by
      rw [Option.bind_eq_none_iff]
      intro mask found
      rw [Option.eq_none_iff_forall_not_mem]
      intro length read
      obtain ⟨nonempty, fits, rfl⟩ := maskPrefix_eq_some_iff.mp read
      exact other length.toNat nonempty fits found
    rw [prefixLength, unmasked, Option.getD_none]
  · intro value present
    rw [read.mtu] at present
    exact of_decide_eq_true (Option.filter_eq_some_iff.mp present).2
  · intro static
    rw [read.routers, if_neg (by simpa using static)]

/-- Every lease is well shaped, and no arithmetic on the way to it overflows. -/
theorem well_shaped (message : Message) :
    (∀ lease, fromAck message = some lease → Sound message lease) ∧
      fromAckChecked message = some (fromAck message) :=
  ⟨fun _ accepted => fromAck_sound accepted, fromAckChecked_eq message⟩

/-- An ACK of the shortest lease, with a renewal time that leaves no room and a mask of 23 ones. -/
def shortest : Message :=
  { Message.request 7 0x020000000001 with
    yiaddr := 0xc0a80142
    options :=
      [(option.messageType, [5]), (option.serverId, [192, 168, 0, 1]), (option.leaseTime, [0, 0, 0, 4]),
        (option.renewalT1, [0, 0, 0, 3]), (option.subnetMask, [255, 255, 254, 0]), (option.mtu, [0, 67])] }

theorem shortest_well_shaped :
    ∃ lease, fromAck shortest = some lease ∧ Sound shortest lease ∧ lease.prefixLength = 23 ∧
      (lease.t1, lease.t2) = (2, 3) := by
  have accepted : (fromAck shortest).isSome = true := by decide
  obtain ⟨lease, found⟩ := Option.isSome_iff_exists.mp accepted
  have read : (fromAck shortest).map (fun lease => (lease.prefixLength, lease.t1, lease.t2)) = some (23, 2, 3) := by
    decide
  rw [found] at read
  have values := Option.some.inj read
  exact ⟨lease, found, (well_shaped shortest).1 lease found, congrArg Prod.fst values, congrArg Prod.snd values⟩

end Lease

end Netd.Model.Dhcp4
