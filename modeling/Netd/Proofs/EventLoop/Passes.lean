import Mathlib.Tactic.SplitIfs
import Netd.Model.EventLoop

/-! # What a stage of a pass can do

A pass starts and stops clients in stages. Each stage leaves an interface as it is, stops a client that is no
longer due, or starts one; what holds of an interface after it is read off these outcomes.
-/

namespace Netd.Model.Interface

/-! ## DHCPv4 -/

/-- A DHCPv4 client should run under the profile. -/
def dhcpDue (i : Interface) (p : Profile) : Bool :=
  (i.managed && p.address.dhcp4) && (i.link.up && i.link.carrier)

/-- A client is left alone, stopped where it is no longer due, or started where there is none and one is due. -/
theorem startDhcpWhereDue_outcomes (i : Interface) (env : Environment) :
    i.startDhcpWhereDue env = i ∨
      (∃ p, i.profile = some p ∧ i.dhcpDue p = false ∧ i.dhcp.isSome = true ∧ i.startDhcpWhereDue env = i.stopDhcp) ∨
      ∃ p mac, i.profile = some p ∧ i.dhcpDue p = true ∧ i.dhcp = none ∧
        i.startDhcpWhereDue env = i.startDhcp env mac p.address.announceHostname := by
  rw [startDhcpWhereDue]
  cases profile : i.profile with
  | none => exact .inl rfl
  | some p =>
    dsimp only
    cases due : (i.managed && p.address.dhcp4) && (i.link.up && i.link.carrier) with
    | false =>
      simp only [Bool.not_false, Bool.and_true, Bool.false_and, Bool.false_eq_true, ↓reduceIte]
      split_ifs with running
      · exact .inr (.inl ⟨p, rfl, due, running, rfl⟩)
      · exact .inl rfl
    | true =>
      simp only [Bool.not_true, Bool.and_false, Bool.true_and, Bool.false_eq_true, ↓reduceIte]
      cases i.link.mac with
      | none => split_ifs <;> exact .inl rfl
      | some mac =>
        split_ifs with idle
        · exact .inr (.inr ⟨p, mac, rfl, due, Option.isNone_iff_eq_none.mp idle, rfl⟩)
        all_goals exact .inl rfl

/-! ## IPv6 -/

/-- Only the clients of IPv6 are other than they were. -/
def Ipv6Only (before after : Interface) : Prop := ∃ ndp dhcp6, after = { before with ndp, dhcp6 }

theorem Ipv6Only.trans {i j k : Interface} (first : Ipv6Only i j) (second : Ipv6Only j k) : Ipv6Only i k := by
  obtain ⟨_, _, rfl⟩ := first
  obtain ⟨ndp, dhcp6, rfl⟩ := second
  exact ⟨ndp, dhcp6, rfl⟩

/-- What reaches the IPv6 clients is no concern of the DHCPv4 client's. -/
theorem handle_ipv6 (sha1 : Bytes → BitVec 160) (i : Interface) (now : ℕ) :
    (∀ message, Ipv6Only i (i.receiveAdvert sha1 now message).1) ∧
      (∀ datagram, Ipv6Only i (i.receiveDatagram now datagram).1) ∧
      Ipv6Only i (i.tickNdp now).1 ∧ Ipv6Only i (i.tickDhcp6 now).1 := by
  refine ⟨fun message => ?_, fun datagram => ?_, ?_, ?_⟩
  · rw [receiveAdvert]
    split_ifs
    · exact ⟨_, _, rfl⟩
    · cases i.ndp <;> exact ⟨_, _, rfl⟩
  · rw [receiveDatagram]
    cases i.dhcp6 <;> exact ⟨_, _, rfl⟩
  · rw [tickNdp]
    cases i.ndp <;> exact ⟨_, _, rfl⟩
  · rw [tickDhcp6]
    cases i.dhcp6 <;> exact ⟨_, _, rfl⟩

theorem startDhcp6WhereDue_dhcp6 (i : Interface) (env : Environment) :
    ∃ dhcp6, i.startDhcp6WhereDue env = { i with dhcp6 } := by
  rw [startDhcp6WhereDue]
  dsimp only
  split_ifs <;> exact ⟨_, rfl⟩

/-- The clients are left alone or stopped; then DHCPv6 is seen to, with or without a new engine, or not. -/
theorem startIpv6WhereDue_outcomes (i : Interface) (env : Environment) :
    ∃ j, (j = i ∨ j = i.stopIpv6) ∧
      (i.startIpv6WhereDue env = j ∨ i.startIpv6WhereDue env = j.startDhcp6WhereDue env ∨
        ∃ secret, i.startIpv6WhereDue env = (j.startNdp env secret).startDhcp6WhereDue env) := by
  rw [startIpv6WhereDue]
  cases i.profile with
  | none => exact ⟨i, .inl rfl, .inl rfl⟩
  | some p =>
    dsimp only
    have stopped (c : Bool) : (if c then i.stopIpv6 else i) = i ∨ (if c then i.stopIpv6 else i) = i.stopIpv6 := by
      cases c
      · exact .inl rfl
      · exact .inr rfl
    generalize (i.ndp.isSome && !((i.managed && p.address.autoconf6) &&
      (i.link.up && i.link.carrier && (linkLocalOf env.observed i.link.index).isSome))) = due
    refine ⟨if due = true then i.stopIpv6 else i, stopped due, ?_⟩
    generalize (if due = true then i.stopIpv6 else i) = j
    split_ifs
    · cases env.secret with
      | none => exact .inl rfl
      | some secret => exact .inr (.inr ⟨secret, rfl⟩)
    · exact .inl rfl
    · exact .inr (.inl rfl)

theorem startIpv6WhereDue_ipv6 (i : Interface) (env : Environment) : Ipv6Only i (i.startIpv6WhereDue env) := by
  obtain ⟨j, before, after⟩ := startIpv6WhereDue_outcomes i env
  have stopped : Ipv6Only i j := by
    obtain rfl | rfl := before <;> exact ⟨_, _, rfl⟩
  obtain same | same | ⟨secret, same⟩ := after
  · rw [same]
    exact stopped
  · obtain ⟨dhcp6, started⟩ := startDhcp6WhereDue_dhcp6 j env
    rw [same, started]
    exact stopped.trans ⟨_, _, rfl⟩
  · obtain ⟨dhcp6, started⟩ := startDhcp6WhereDue_dhcp6 (j.startNdp env secret) env
    rw [same, started]
    exact stopped.trans ⟨_, _, rfl⟩

end Netd.Model.Interface
