import Netd.Model.Convergence
import Netd.Proofs.EventLoop.Lifecycle

/-! # One interface of the table

What a pass and an event keep of one interface: its clients run only where its verdict asks for them, on a link with a
carrier, and a network is known only as long as the carrier holds. Every stage but the judging one leaves alone what the
interface layer sees.
-/

namespace Netd.Model

namespace Interface

/-! ## What clients leave alone -/

/-- The part of an interface that the interface layer sees, and what it said. -/
def bearings (i : Interface) : String × Link × Outcome := (i.ifid, i.link, i.outcome)

theorem bearings_eq {i j : Interface} (same : j.bearings = i.bearings) :
    j.ifid = i.ifid ∧ j.link = i.link ∧ j.outcome = i.outcome := by
  simpa only [bearings, Prod.mk.injEq] using same

theorem perform_bearings (i : Interface) (actions : List Dhcp4.Action) :
    (i.perform actions).1.bearings = i.bearings := by
  obtain ⟨_, _, _, _, performed⟩ := foldl_performAction_only i.finishRestart actions
  rw [perform, performed, finishRestart]
  split_ifs <;> rfl

theorem startDhcpWhereDue_bearings (i : Interface) (env : Environment) :
    (i.startDhcpWhereDue env).bearings = i.bearings := by
  obtain same | ⟨_, _, _, _, stopped⟩ | ⟨p, mac, _, _, _, started⟩ := startDhcpWhereDue_outcomes i env
  · rw [same]
  · rw [stopped]
    rfl
  · rw [started]
    exact perform_bearings _ _

theorem startIpv6WhereDue_bearings (i : Interface) (env : Environment) :
    (i.startIpv6WhereDue env).bearings = i.bearings := by
  obtain ⟨_, _, same⟩ := startIpv6WhereDue_ipv6 i env
  rw [same]
  rfl

/-- What an event keeps: the bearings, which clients there are, and no lease comes without a client. -/
structure Carried (before after : Interface) : Prop where
  bearings : after.bearings = before.bearings
  dhcp : after.dhcp.isSome = before.dhcp.isSome
  ndp : after.ndp.isSome = before.ndp.isSome
  dhcp6 : after.dhcp6.isSome = before.dhcp6.isSome
  lease : before.dhcp = none → after.lease = before.lease

theorem Carried.refl (i : Interface) : Carried i i := ⟨rfl, rfl, rfl, rfl, fun _ => rfl⟩

theorem perform_clients (i : Interface) (actions : List Dhcp4.Action) :
    (i.perform actions).1.dhcp = i.dhcp ∧ (i.perform actions).1.ndp = i.ndp ∧
      (i.perform actions).1.dhcp6 = i.dhcp6 := by
  obtain ⟨fixed, -⟩ := perform_spec i actions
  simp only [Interface.fixed, Prod.mk.injEq] at fixed
  obtain ⟨-, -, clients⟩ := fixed
  exact clients

/-- A client that moved, with its actions performed. -/
theorem perform_carried {i : Interface} {c : Dhcp4.Client} (client : i.dhcp = some c) (after : Dhcp4.Client)
    (actions : List Dhcp4.Action) : Carried i (perform { i with dhcp := some after } actions).1 := by
  obtain ⟨dhcp, ndp, dhcp6⟩ := perform_clients { i with dhcp := some after } actions
  refine ⟨perform_bearings _ actions, ?_, congrArg _ ndp, congrArg _ dhcp6, fun none => ?_⟩
  · rw [dhcp, client]
    rfl
  · rw [client] at none
    contradiction

theorem handle_carried (sha1 : Bytes → BitVec 160) (i : Interface) (event : Event) :
    Carried i (i.handle sha1 event).1 := by
  cases event with
  | message now message =>
    rw [handle, receiveMessage]
    cases client : i.dhcp with
    | none => exact .refl i
    | some c => exact perform_carried client _ _
  | advert now message =>
    rw [handle, receiveAdvert]
    split_ifs
    · exact .refl i
    · cases engine : i.ndp with
      | none => exact .refl i
      | some e => exact ⟨rfl, rfl, by rw [engine]; rfl, rfl, fun _ => rfl⟩
  | datagram now datagram =>
    rw [handle, receiveDatagram]
    cases client : i.dhcp6 with
    | none => exact .refl i
    | some c => exact ⟨rfl, rfl, rfl, by rw [client]; rfl, fun _ => rfl⟩
  | tickDhcp now =>
    rw [handle, tickDhcp]
    cases client : i.dhcp with
    | none =>
      obtain ⟨dhcp, ndp, dhcp6⟩ := perform_clients i []
      obtain ⟨-, lease⟩ := perform_spec i []
      exact ⟨perform_bearings i [], congrArg _ dhcp, congrArg _ ndp, congrArg _ dhcp6, fun _ => lease⟩
    | some c => exact perform_carried client _ _
  | tickNdp now =>
    rw [handle, tickNdp]
    cases engine : i.ndp with
    | none => exact .refl i
    | some e => exact ⟨rfl, rfl, by rw [engine]; rfl, rfl, fun _ => rfl⟩
  | tickDhcp6 now =>
    rw [handle, tickDhcp6]
    cases client : i.dhcp6 with
    | none => exact .refl i
    | some c => exact ⟨rfl, rfl, rfl, by rw [client]; rfl, fun _ => rfl⟩
  | renew now =>
    rw [handle, renew]
    cases client : i.dhcp with
    | none => exact .refl i
    | some c => exact perform_carried client _ _

/-! ## Clients run where the verdict asks for them -/

/-- The verdict joins a profile that asks for this, on a link that is up with a carrier. -/
def Asks (i : Interface) (wanted : AddressConfig → Bool) : Prop :=
  ∃ p, i.outcome = .join p ∧ wanted p.address = true ∧ i.link.up = true ∧ i.link.carrier = true

structure Warranted (i : Interface) : Prop where
  dhcp : i.dhcp.isSome = true → i.Asks AddressConfig.dhcp4
  ndp : i.ndp.isSome = true → i.Asks AddressConfig.autoconf6
  dhcp6 : i.dhcp6.isSome = true → i.ndp.isSome = true
  lease : i.lease.isSome = true → i.dhcp.isSome = true

theorem Asks.congr {i j : Interface} {wanted : AddressConfig → Bool} (asks : i.Asks wanted)
    (bearings : j.bearings = i.bearings) : j.Asks wanted := by
  obtain ⟨-, link, outcome⟩ := bearings_eq bearings
  obtain ⟨p, joined, due, up, carrier⟩ := asks
  exact ⟨p, outcome.trans joined, due, link ▸ up, link ▸ carrier⟩

theorem Stopped.warranted {i : Interface} (stopped : Stopped i) : Warranted i where
  dhcp := by simp [stopped.dhcp]
  ndp := by simp [stopped.ndp]
  dhcp6 := by simp [stopped.dhcp6]
  lease := by simp [stopped.lease]

theorem Warranted.carried {i j : Interface} (warranted : Warranted i) (carried : Carried i j) : Warranted j where
  dhcp there := (warranted.dhcp (carried.dhcp ▸ there)).congr carried.bearings
  ndp there := (warranted.ndp (carried.ndp ▸ there)).congr carried.bearings
  dhcp6 there := carried.ndp ▸ warranted.dhcp6 (carried.dhcp6 ▸ there)
  lease there := by
    rw [carried.dhcp]
    cases client : i.dhcp with
    | some c => rfl
    | none =>
      have held := warranted.lease (carried.lease client ▸ there)
      rwa [client] at held

theorem syncLink_warranted {i : Interface} (warranted : Warranted i) (link : Link) (outcome : Outcome) :
    Warranted (i.syncLink link outcome) := by
  obtain stopped | ⟨same, carried⟩ := syncLink_cases i link outcome
  · exact stopped.warranted
  · have asks (wanted : AddressConfig → Bool) (before : i.Asks wanted) :
        Asks { i with link, rejudge := false } wanted := by
      obtain ⟨p, joined, due, up, carrier⟩ := before
      obtain ⟨carrier', up'⟩ := carried carrier up
      exact ⟨p, joined, due, up', carrier'⟩
    rw [same]
    exact ⟨fun there => asks _ (warranted.dhcp there), fun there => asks _ (warranted.ndp there),
      warranted.dhcp6, warranted.lease⟩

theorem asks_of_profile {i : Interface} {p : Profile} {wanted : AddressConfig → Bool} (profile : i.profile = some p)
    (due : wanted p.address = true) (up : i.link.up = true) (carrier : i.link.carrier = true) : i.Asks wanted :=
  ⟨p, (stands_of_profile profile up carrier).joined, due, up, carrier⟩

theorem startDhcpWhereDue_warranted {i : Interface} (warranted : Warranted i) (env : Environment) :
    Warranted (i.startDhcpWhereDue env) := by
  have bearings := startDhcpWhereDue_bearings i env
  obtain same | ⟨_, _, _, _, stopped⟩ | ⟨p, mac, profile, due, none, started⟩ := startDhcpWhereDue_outcomes i env
  · rw [same]
    exact warranted
  · rw [stopped] at bearings ⊢
    refine ⟨fun there => ?_, fun there => (warranted.ndp there).congr bearings, warranted.dhcp6, fun there => ?_⟩
    · contradiction
    · contradiction
  · obtain ⟨c, fixed, lease, -, -⟩ := startDhcp_spec i env mac p.address.announceHostname
    rw [started] at bearings ⊢
    simp only [Interface.fixed, Prod.mk.injEq] at fixed
    obtain ⟨-, -, -, ndp, dhcp6⟩ := fixed
    simp only [dhcpDue, Bool.and_eq_true] at due
    obtain ⟨⟨-, dhcp4⟩, up, carrier⟩ := due
    refine ⟨fun _ => (asks_of_profile profile dhcp4 up carrier).congr bearings, fun there => ?_, fun there => ?_, ?_⟩
    · exact (warranted.ndp (ndp ▸ there)).congr bearings
    · exact ndp ▸ warranted.dhcp6 (dhcp6 ▸ there)
    · rw [lease]
      intro there
      contradiction

/-- DHCPv6 is left running only beside an engine. -/
theorem startDhcp6WhereDue_beside (i : Interface) (env : Environment)
    (there : (i.startDhcp6WhereDue env).dhcp6.isSome = true) : (i.startDhcp6WhereDue env).ndp.isSome = true := by
  rw [startDhcp6WhereDue] at there ⊢
  cases engine : i.ndp with
  | none =>
    rw [engine] at there
    cases client : i.dhcp6 with
    | none => simp [client] at there
    | some c => simp [client] at there
  | some e =>
    dsimp only
    split_ifs <;> simp [engine]

/-- An engine that is left running was due, or nothing was looked at. -/
theorem startIpv6WhereDue_engine (i : Interface) (env : Environment)
    (there : (i.startIpv6WhereDue env).ndp.isSome = true) :
    i.startIpv6WhereDue env = i ∨ i.Asks AddressConfig.autoconf6 := by
  rw [startIpv6WhereDue] at there ⊢
  cases profile : i.profile with
  | none => exact .inl rfl
  | some p =>
    rw [profile] at there
    dsimp only at there
    cases due : (i.managed && p.address.autoconf6) &&
        (i.link.up && i.link.carrier && (linkLocalOf env.observed i.link.index).isSome) with
    | true =>
      simp only [Bool.and_eq_true] at due
      obtain ⟨⟨-, autoconf6⟩, ⟨up, carrier⟩, -⟩ := due
      exact .inr (asks_of_profile profile autoconf6 up carrier)
    | false =>
      rw [due] at there
      cases engine : i.ndp with
      | none =>
        obtain ⟨dhcp6, same⟩ := startDhcp6WhereDue_dhcp6 i env
        simp [engine, same] at there
      | some e =>
        obtain ⟨dhcp6, same⟩ := startDhcp6WhereDue_dhcp6 i.stopIpv6 env
        simp only [engine, Option.isSome_some, Bool.not_false, Bool.and_self, ↓reduceIte, Bool.false_and,
          Bool.false_eq_true, same] at there
        contradiction

theorem startIpv6WhereDue_warranted {i : Interface} (warranted : Warranted i) (env : Environment) :
    Warranted (i.startIpv6WhereDue env) := by
  have bearings := startIpv6WhereDue_bearings i env
  obtain ⟨ndp, dhcp6, only⟩ := startIpv6WhereDue_ipv6 i env
  have dhcp : (i.startIpv6WhereDue env).dhcp = i.dhcp := by rw [only]
  have lease : (i.startIpv6WhereDue env).lease = i.lease := by rw [only]
  refine ⟨fun there => (warranted.dhcp (dhcp ▸ there)).congr bearings, fun there => ?_, fun there => ?_, fun there => ?_⟩
  · obtain same | asks := startIpv6WhereDue_engine i env there
    · exact (warranted.ndp (same ▸ there)).congr bearings
    · exact asks.congr bearings
  · obtain ⟨j, before, same | same | ⟨secret, same⟩⟩ := startIpv6WhereDue_outcomes i env
    · rw [same] at there ⊢
      obtain rfl | rfl := before
      · exact warranted.dhcp6 there
      · contradiction
    · rw [same] at there ⊢
      exact startDhcp6WhereDue_beside j env there
    · rw [same] at there ⊢
      exact startDhcp6WhereDue_beside _ env there
  · rw [dhcp]
    exact warranted.lease (lease ▸ there)

end Interface

end Netd.Model
