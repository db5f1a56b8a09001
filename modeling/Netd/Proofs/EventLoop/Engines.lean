import Netd.Proofs.EventLoop.Lifecycle
import Netd.Proofs.Ndp.Uniqueness

/-! # What reaches the engine of an interface

Seen from its engine, a step in the life of an interface is the loss of the engine, a new one, an
operation on it, or nothing. What an engine is told comes from advertisements only, so a property
of engines that every acceptable advertisement keeps holds of the engine of every reachable
interface. The verdict is followed in the same way.
-/

namespace Netd.Model.Interface

/-! ## Stages of a pass -/

theorem adoptLink_outcome (i : Interface) (link : Link) : (i.adoptLink link).outcome = i.outcome := by
  rw [adoptLink]
  split_ifs <;> rfl

/-- Only links other than the loopback are judged. -/
theorem syncLink_outcome (i : Interface) (link : Link) (outcome : Outcome) :
    (i.syncLink link outcome).outcome = if link.loopback then i.outcome else outcome := by
  rw [syncLink]
  split_ifs
  · exact adoptLink_outcome i link
  · rw [adoptOutcome]
    split_ifs <;> rfl

theorem syncLink_ndp (i : Interface) (link : Link) (outcome : Outcome) :
    (i.syncLink link outcome).ndp = none ∨ (i.syncLink link outcome).ndp = i.ndp := by
  obtain stopped | ⟨same, -⟩ := syncLink_cases i link outcome
  · exact .inl stopped.ndp
  · rw [same]
    exact .inr rfl

/-- The part of an interface that its DHCPv4 client does not touch. -/
theorem startDhcp_frame (i : Interface) (env : Environment) (mac : Mac) (announceHostname : Bool) :
    (i.startDhcp env mac announceHostname).outcome = i.outcome ∧
      (i.startDhcp env mac announceHostname).ndp = i.ndp := by
  obtain ⟨c, fixed, -⟩ := startDhcp_spec i env mac announceHostname
  simp only [Interface.fixed, Prod.mk.injEq] at fixed
  obtain ⟨-, outcome, -, ndp, -⟩ := fixed
  exact ⟨outcome, ndp⟩

theorem startDhcpWhereDue_frame (i : Interface) (env : Environment) :
    (i.startDhcpWhereDue env).outcome = i.outcome ∧ (i.startDhcpWhereDue env).ndp = i.ndp := by
  obtain same | ⟨_, _, _, _, stopped⟩ | ⟨p, mac, _, _, _, started⟩ := startDhcpWhereDue_outcomes i env
  · rw [same]
    exact ⟨rfl, rfl⟩
  · rw [stopped]
    exact ⟨rfl, rfl⟩
  · rw [started]
    exact startDhcp_frame i env mac p.address.announceHostname

/-- A new engine, begun. -/
def Begun (engine : Option Ndp.Engine) : Prop :=
  ∃ config now, engine = some ((Ndp.Engine.new config).start now).1

theorem startIpv6WhereDue_frame (i : Interface) (env : Environment) :
    (i.startIpv6WhereDue env).outcome = i.outcome ∧
      ((i.startIpv6WhereDue env).ndp = none ∨ (i.startIpv6WhereDue env).ndp = i.ndp ∨
        Begun (i.startIpv6WhereDue env).ndp) := by
  obtain ⟨j, before, after⟩ := startIpv6WhereDue_outcomes i env
  have kept : j.outcome = i.outcome ∧ (j.ndp = none ∨ j.ndp = i.ndp) := by
    obtain rfl | rfl := before
    · exact ⟨rfl, .inr rfl⟩
    · exact ⟨rfl, .inl rfl⟩
  obtain same | same | ⟨secret, same⟩ := after
  · rw [same]
    exact ⟨kept.1, kept.2.imp_right .inl⟩
  · obtain ⟨dhcp6, started⟩ := startDhcp6WhereDue_dhcp6 j env
    rw [same, started]
    exact ⟨kept.1, kept.2.imp_right .inl⟩
  · obtain ⟨dhcp6, started⟩ := startDhcp6WhereDue_dhcp6 (j.startNdp env secret) env
    rw [same, started]
    exact ⟨kept.1, .inr (.inr ⟨_, _, rfl⟩)⟩

/-- What a pass makes of the verdict and of the engine. -/
theorem pass_frame (i : Interface) (p : Pass) :
    (i.pass p).outcome = (if p.link.loopback then i.outcome else p.outcome) ∧
      ((i.pass p).ndp = none ∨ (i.pass p).ndp = i.ndp ∨ Begun (i.pass p).ndp) := by
  obtain ⟨outcome, engine⟩ :=
    startIpv6WhereDue_frame ((i.syncLink p.link p.outcome).startDhcpWhereDue p.env) p.env
  obtain ⟨second, same⟩ := startDhcpWhereDue_frame (i.syncLink p.link p.outcome) p.env
  rw [same] at engine
  refine ⟨outcome.trans (second.trans (syncLink_outcome i p.link p.outcome)), ?_⟩
  obtain none | kept | begun := engine
  · exact .inl none
  · obtain none | before := syncLink_ndp i p.link p.outcome
    · exact .inl (kept.trans none)
    · exact .inr (.inl (kept.trans before))
  · exact .inr (.inr begun)

/-! ## Events -/

/-- What an event makes of the verdict and of the engine. -/
theorem handle_frame (sha1 : Bytes → BitVec 160) (i : Interface) (event : Event) :
    (i.handle sha1 event).1.outcome = i.outcome ∧
      ((i.handle sha1 event).1.ndp = i.ndp ∨
        (∃ e now, i.ndp = some e ∧ (i.handle sha1 event).1.ndp = some (e.tick now).1) ∨
        ∃ e now message, event = .advert now message ∧ message.2.1 = 255 ∧ isV6LinkLocal message.1 = true ∧
          i.ndp = some e ∧ (i.handle sha1 event).1.ndp = some (e.receive sha1 now message.1 message.2.2).1) := by
  have performed (j : Interface) (actions : List Dhcp4.Action) :
      (j.perform actions).1.outcome = j.outcome ∧ (j.perform actions).1.ndp = j.ndp := by
    have fixed := (perform_spec j actions).1
    simp only [Interface.fixed, Prod.mk.injEq] at fixed
    exact ⟨fixed.2.1, fixed.2.2.2.1⟩
  cases event with
  | message now message =>
    rw [handle, receiveMessage]
    cases i.dhcp with
    | none => exact ⟨rfl, .inl rfl⟩
    | some c =>
      obtain ⟨outcome, ndp⟩ := performed { i with dhcp := some (c.receive now message).1 } (c.receive now message).2
      exact ⟨outcome, .inl ndp⟩
  | advert now message =>
    rw [handle, receiveAdvert]
    split_ifs with dropped
    · exact ⟨rfl, .inl rfl⟩
    · simp only [Bool.or_eq_true, decide_eq_true_eq, Bool.not_eq_true', not_or, not_not,
        Bool.not_eq_false] at dropped
      cases engine : i.ndp with
      | none => exact ⟨rfl, .inl engine⟩
      | some e => exact ⟨rfl, .inr (.inr ⟨e, now, message, rfl, dropped.1, dropped.2, rfl, rfl⟩)⟩
  | datagram now datagram =>
    rw [handle, receiveDatagram]
    cases i.dhcp6 <;> exact ⟨rfl, .inl rfl⟩
  | tickDhcp now =>
    rw [handle, tickDhcp]
    cases i.dhcp with
    | none =>
      obtain ⟨outcome, ndp⟩ := performed i []
      exact ⟨outcome, .inl ndp⟩
    | some c =>
      obtain ⟨outcome, ndp⟩ := performed { i with dhcp := some (c.tick now).1 } (c.tick now).2
      exact ⟨outcome, .inl ndp⟩
  | tickNdp now =>
    rw [handle, tickNdp]
    cases engine : i.ndp with
    | none => exact ⟨rfl, .inl engine⟩
    | some e => exact ⟨rfl, .inr (.inl ⟨e, now, rfl, rfl⟩)⟩
  | tickDhcp6 now =>
    rw [handle, tickDhcp6]
    cases i.dhcp6 <;> exact ⟨rfl, .inl rfl⟩
  | renew now =>
    rw [handle, renew]
    cases i.dhcp with
    | none => exact ⟨rfl, .inl rfl⟩
    | some c =>
      obtain ⟨outcome, ndp⟩ := performed { i with dhcp := some (c.renewNow now).1 } (c.renewNow now).2
      exact ⟨outcome, .inl ndp⟩

/-! ## Whole lives -/

/-- The engine at an index, if there is an interface and it has one. -/
def engineAt (slot : Option Interface) : Option Ndp.Engine := slot.bind fun i => i.ndp

section Next

variable {sha1 : Bytes → BitVec 160} {slot : Option Interface} {step : Step}

/-- What a new engine has, and ticks and acceptable advertisements keep, the engine has after any step. -/
theorem next_engine {inv : Ndp.Engine → Prop} (begun : ∀ config now, inv ((Ndp.Engine.new config).start now).1)
    (tick : ∀ e now, inv e → inv (e.tick now).1)
    (receive : ∀ e now message, step = .event (.advert now message) → message.2.1 = 255 →
      isV6LinkLocal message.1 = true → engineAt slot = some e → inv e →
      inv (e.receive sha1 now message.1 message.2.2).1)
    (before : ∀ e ∈ engineAt slot, inv e) : ∀ e ∈ engineAt ((slots sha1).next slot step), inv e := by
  intro e member
  obtain ⟨after, there, engine⟩ := Option.bind_eq_some_iff.mp member
  cases step with
  | sight s =>
    obtain ⟨link, -, rfl⟩ := Option.map_eq_some_iff.mp there
    obtain none | kept | ⟨config, now, new⟩ :=
      (pass_frame (slot.getD (Interface.new s.ifid link)) ⟨link, s.outcome, s.env⟩).2
    · rw [none] at engine
      contradiction
    · cases slot with
      | none =>
        rw [kept] at engine
        contradiction
      | some i => exact before e (kept.symm.trans engine)
    · obtain rfl := Option.some.inj (engine.symm.trans new)
      exact begun config now
  | event event =>
    obtain ⟨i, was, rfl⟩ := Option.map_eq_some_iff.mp there
    obtain kept | ⟨old, now, engineWas, new⟩ | ⟨old, now, message, rfl, hops, source, engineWas, new⟩ :=
      (handle_frame sha1 i event).2
    · exact before e (by rw [was]; exact kept.symm.trans engine)
    · obtain rfl := Option.some.inj (engine.symm.trans new)
      exact tick old now (before old (by rw [was]; exact engineWas))
    · obtain rfl := Option.some.inj (engine.symm.trans new)
      have held : engineAt slot = some old := by rw [was]; exact engineWas
      exact receive old now message rfl hops source held (before old held)

end Next

end Netd.Model.Interface
