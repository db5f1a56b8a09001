import Netd.Model.Dhcp4.Packet

/-! # What an accepted ACK guarantees

A lease is read from an ACK only if its times can be ordered, and then they are: renewal before
rebinding before expiry, whatever the server sent. Its server is the identifier the ACK carries.
-/

namespace Netd.Model.Dhcp4

/-- The order of a lease's times that every timer of the client relies on. -/
structure Lease.Shaped (lease : Lease) : Prop where
  renewal_pos : 0 < lease.t1.toNat
  renewal_lt : lease.t1.toNat < lease.t2.toNat
  rebinding_lt : lease.t2.toNat < lease.leaseTime.toNat

namespace Lease

theorem renewalTime_bounds (options : Options) {leaseTime : U32} (long : 4 ≤ leaseTime.toNat) :
    0 < (renewalTime options leaseTime).toNat ∧
      (renewalTime options leaseTime).toNat + 2 ≤ leaseTime.toNat := by
  have half : (leaseTime / 2).toNat = leaseTime.toNat / 2 := BitVec.toNat_udiv
  unfold renewalTime
  cases found : (options.u32 option.renewalT1).filter
      (fun t => decide (0 < t) && decide (t < leaseTime - 2)) with
  | none =>
    simp only [Option.getD_none, half]
    omega
  | some t =>
    have range := (Option.filter_eq_some_iff.mp found).2
    simp only [Bool.and_eq_true, decide_eq_true_eq] at range
    obtain ⟨positive, below⟩ := range
    have less : (leaseTime - 2).toNat = leaseTime.toNat - 2 :=
      BitVec.toNat_sub_of_le (by simpa [BitVec.le_def] using (by omega : 2 ≤ leaseTime.toNat))
    simp only [BitVec.lt_def, less] at positive below
    simp only [Option.getD_some]
    have zero : (0 : U32).toNat = 0 := rfl
    omega

theorem rebindingTime_bounds (options : Options) {leaseTime t1 : U32}
    (room : t1.toNat + 2 ≤ leaseTime.toNat) :
    t1.toNat < (rebindingTime options leaseTime t1).toNat ∧
      (rebindingTime options leaseTime t1).toNat < leaseTime.toNat := by
  have width := leaseTime.isLt
  have next : (t1 + 1).toNat = t1.toNat + 1 := by
    rw [BitVec.toNat_add]
    exact Nat.mod_eq_of_lt (by simp; omega)
  have last : (leaseTime - 1).toNat = leaseTime.toNat - 1 :=
    BitVec.toNat_sub_of_le (by simpa [BitVec.le_def] using (by omega : 1 ≤ leaseTime.toNat))
  unfold rebindingTime
  cases found : (options.u32 option.rebindingT2).filter
      (fun t => decide (t1 < t) && decide (t < leaseTime)) with
  | none =>
    simp only [Option.getD_none]
    -- The clamped default lies between `t1 + 1` and `leaseTime - 1`.
    generalize (leaseTime.setWidth 64 * 7 / 8).setWidth 32 = standard
    have lower : t1 + 1 ≤ min (max standard (t1 + 1)) (leaseTime - 1) :=
      le_min (le_max_right ..) (by rw [BitVec.le_def, next, last]; omega)
    have upper : min (max standard (t1 + 1)) (leaseTime - 1) ≤ leaseTime - 1 := min_le_right ..
    simp only [BitVec.le_def, next, last] at lower upper
    omega
  | some t =>
    have range := (Option.filter_eq_some_iff.mp found).2
    simpa [BitVec.lt_def] using range

/-- A lease with the parts of the ACK that it was read from. -/
structure ReadFrom (message : Message) (lease : Lease) : Prop where
  server : message.options.ipv4 option.serverId = some lease.server
  leaseTime : message.options.u32 option.leaseTime = some lease.leaseTime
  long : 4 ≤ lease.leaseTime.toNat
  t1 : lease.t1 = renewalTime message.options lease.leaseTime
  t2 : lease.t2 = rebindingTime message.options lease.leaseTime lease.t1
  address : lease.address ≠ Ipv4Addr.unspecified
  prefixLength : lease.prefixLength = ((message.options.ipv4 option.subnetMask).bind maskPrefix).getD
    (classfulPrefix lease.address)
  mtu : lease.mtu = ((message.options.u16 option.mtu).filter fun m => decide (68 ≤ m))
  staticRoutes : lease.staticRoutes =
    ((message.options.get option.classlessStaticRoute).bind decodeClasslessRoutes).getD []
  routers : lease.routers = if lease.staticRoutes.isEmpty then message.options.ipv4List option.router else []

theorem fromAck_read {message : Message} {lease : Lease} (accepted : fromAck message = some lease) :
    ReadFrom message lease := by
  simp only [fromAck] at accepted
  split at accepted
  · contradiction
  · next assigned =>
    simp only [Option.bind_eq_some_iff] at accepted
    obtain ⟨server, serverId, leaseTime, time, accepted⟩ := accepted
    split at accepted
    · contradiction
    · next long =>
      obtain rfl := Option.some.inj accepted
      refine ⟨serverId, time, ?_, rfl, rfl, fun zero => assigned ?_, rfl, rfl, rfl, rfl⟩
      · simpa [BitVec.lt_def] using long
      · rw [show message.yiaddr = Ipv4Addr.unspecified from zero]
        rfl

/-- Every lease read from an ACK has ordered times. -/
theorem fromAck_shaped {message : Message} {lease : Lease} (accepted : fromAck message = some lease) :
    lease.Shaped := by
  have read := fromAck_read accepted
  have first := renewalTime_bounds message.options read.long
  rw [← read.t1] at first
  have second := rebindingTime_bounds message.options first.2
  rw [← read.t2] at second
  exact ⟨first.1, second.1, second.2⟩

end Lease

end Netd.Model.Dhcp4
