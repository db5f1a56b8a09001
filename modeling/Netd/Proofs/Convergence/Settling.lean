import Netd.Proofs.Convergence.Judgments
import Netd.Proofs.Interface.Networks
import Netd.Proofs.Ndp.Soliciting

/-! # Passes settle

Over one kernel state two passes are enough. What a pass has started or stopped, the next one leaves alone. It may still
find another network, where the pass before stopped a client that had seen one; then either the clients are stopped,
and new ones have seen nothing, or they are left alone, and the network is found again.
-/

namespace Netd.Model

namespace Interface

/-! ## Clients at rest -/

/-- No DHCPv4 client is to be stopped, and none can be started. -/
def AtRest (i : Interface) (socket : Bool) : Prop :=
  ∀ p, i.profile = some p → (i.dhcp.isSome = true → i.dhcpDue p = true) ∧
    (i.dhcpDue p = true → i.dhcp = none → i.link.mac = none ∨ socket = false)

theorem AtRest.startDhcpWhereDue {i : Interface} {env : Environment} (rests : i.AtRest env.packetSocket) :
    i.startDhcpWhereDue env = i := by
  rw [Interface.startDhcpWhereDue]
  cases profile : i.profile with
  | none => rfl
  | some p =>
    obtain ⟨stays, waits⟩ := rests p profile
    rw [dhcpDue] at stays waits
    dsimp only
    cases due : (i.managed && p.address.dhcp4) && (i.link.up && i.link.carrier) with
    | false =>
      have stopped : i.dhcp.isSome = false := by
        rw [due] at stays
        simpa using stays
      simp [stopped]
    | true =>
      cases client : i.dhcp with
      | some c => simp [client]
      | none =>
        simp only [client, Option.isSome_none, Option.isNone_none, Bool.false_and, Bool.and_self, Bool.false_eq_true,
          ↓reduceIte]
        obtain none | unopened := waits due client
        · rw [none]
        · rw [unopened]
          cases i.link.mac <;> rfl

theorem profile_congr {i j : Interface} (same : j.bearings = i.bearings) : j.profile = i.profile := by
  obtain ⟨-, link, outcome⟩ := bearings_eq same
  rw [profile, link, outcome]
  rfl

theorem managed_congr {i j : Interface} (same : j.bearings = i.bearings) : j.managed = i.managed := by
  obtain ⟨-, link, outcome⟩ := bearings_eq same
  rw [managed, link, outcome]
  rfl

/-- A pass leaves the DHCPv4 client at rest. -/
theorem startDhcpWhereDue_rests (i : Interface) (env : Environment) :
    (i.startDhcpWhereDue env).AtRest env.packetSocket := by
  have bearings := startDhcpWhereDue_bearings i env
  obtain ⟨-, link, -⟩ := bearings_eq bearings
  intro p profile
  rw [profile_congr bearings] at profile
  rw [dhcpDue, managed_congr bearings, link, Interface.startDhcpWhereDue, profile]
  dsimp only
  cases due : (i.managed && p.address.dhcp4) && (i.link.up && i.link.carrier) with
  | false =>
    refine ⟨fun there => ?_, fun never => ?_⟩
    · cases client : i.dhcp <;> simp [client, stopDhcp] at there
    · contradiction
  | true =>
    refine ⟨fun _ => rfl, fun _ none => ?_⟩
    cases client : i.dhcp with
    | some c => simp [client] at none
    | none =>
      cases sender : i.link.mac with
      | none => exact .inl rfl
      | some mac =>
        refine .inr (Bool.eq_false_iff.mpr fun opened => ?_)
        obtain ⟨c, fixed, -⟩ := startDhcp_spec i env mac p.address.announceHostname
        simp only [Interface.fixed, Prod.mk.injEq] at fixed
        simp [client, sender, opened, fixed] at none

/-- DHCPv6 is seen to once. -/
theorem startDhcp6WhereDue_twice (i : Interface) (env : Environment) :
    (i.startDhcp6WhereDue env).startDhcp6WhereDue env = i.startDhcp6WhereDue env := by
  cases wanted : (i.ndp.map fun e => e.wantsDhcp6).getD false with
  | false => cases client : i.dhcp6 <;> simp [startDhcp6WhereDue, wanted, client]
  | true =>
    cases client : i.dhcp6 with
    | some c => simp [startDhcp6WhereDue, wanted, client]
    | none =>
      cases able : (linkLocalOf env.observed i.link.index).isSome && env.dhcp6Socket && i.link.mac.isSome <;>
        simp only [startDhcp6WhereDue, wanted, client, able, Option.isSome_none, Option.isSome_some,
          Option.isNone_none, Option.isNone_some, Bool.not_true, Bool.and_false, Bool.false_and, Bool.true_and,
          Bool.false_eq_true, ↓reduceIte]

/-- An engine should run under the profile. -/
def slaacDue (i : Interface) (env : Environment) (p : Profile) : Bool :=
  (i.managed && p.address.autoconf6) &&
    (i.link.up && i.link.carrier && (linkLocalOf env.observed i.link.index).isSome)

/-- Where the engine is as it should be, only DHCPv6 is seen to. -/
theorem startIpv6WhereDue_of_due {i : Interface} {env : Environment} {p : Profile} (profile : i.profile = some p)
    (due : i.ndp.isSome = i.slaacDue env p) : i.startIpv6WhereDue env = i.startDhcp6WhereDue env := by
  rw [startIpv6WhereDue, profile]
  rw [slaacDue] at due
  dsimp only
  rw [← due]
  cases engine : i.ndp <;> simp [engine]

/-- Nothing is done for want of a socket or the secret, or DHCPv6 is seen to with the engine as it should be. -/
theorem startIpv6WhereDue_stages {i : Interface} {p : Profile} (profile : i.profile = some p) (env : Environment) :
    i.startIpv6WhereDue env = i ∨
      ∃ j : Interface, i.startIpv6WhereDue env = j.startDhcp6WhereDue env ∧ j.ndp.isSome = i.slaacDue env p := by
  rw [startIpv6WhereDue, profile, slaacDue]
  dsimp only
  cases due : (i.managed && p.address.autoconf6) &&
      (i.link.up && i.link.carrier && (linkLocalOf env.observed i.link.index).isSome) with
  | false =>
    cases engine : i.ndp with
    | none => exact .inr ⟨i, by simp, by rw [engine]; rfl⟩
    | some e => exact .inr ⟨i.stopIpv6, by simp, rfl⟩
  | true =>
    cases engine : i.ndp with
    | some e => exact .inr ⟨i, by simp [engine], by rw [engine]; rfl⟩
    | none =>
      cases opened : env.icmp6Socket with
      | false => exact .inl (by simp [engine])
      | true =>
        cases kept : env.secret with
        | none => exact .inl (by simp [engine])
        | some secret => exact .inr ⟨i.startNdp env secret, by simp [engine], rfl⟩

theorem startIpv6WhereDue_twice (i : Interface) (env : Environment) :
    (i.startIpv6WhereDue env).startIpv6WhereDue env = i.startIpv6WhereDue env := by
  have bearings := startIpv6WhereDue_bearings i env
  obtain ⟨-, link, -⟩ := bearings_eq bearings
  cases profile : i.profile with
  | none =>
    have same : i.startIpv6WhereDue env = i := by rw [startIpv6WhereDue, profile]
    rw [same, same]
  | some p =>
    obtain same | ⟨j, same, engine⟩ := startIpv6WhereDue_stages profile env
    · rw [same, same]
    · obtain ⟨dhcp6, after⟩ := startDhcp6WhereDue_dhcp6 j env
      have due : (i.startIpv6WhereDue env).ndp.isSome = slaacDue (i.startIpv6WhereDue env) env p := by
        rw [slaacDue, managed_congr bearings, link, same, after]
        exact engine
      rw [startIpv6WhereDue_of_due ((profile_congr bearings).trans profile) due, same, startDhcp6WhereDue_twice]

theorem AtRest.startIpv6WhereDue {i : Interface} {socket : Bool} (rests : i.AtRest socket) (env : Environment) :
    (i.startIpv6WhereDue env).AtRest socket := by
  obtain ⟨_, _, same⟩ := startIpv6WhereDue_ipv6 i env
  rw [same]
  exact rests

/-! ## A call for judgment -/

/-- A client that begins only sends. -/
theorem startDhcp_rejudge (i : Interface) (env : Environment) (mac : Mac) (announceHostname : Bool) :
    (i.startDhcp env mac announceHostname).rejudge = i.rejudge := by
  let client := Dhcp4.Client.new
    { chaddr := mac
      clientId := env.clientId
      hostname := if announceHostname then env.hostname else none
      seed := env.entropy4 ^^^ i.link.index.setWidth 64 } env.created
  obtain ⟨-, message, sent⟩ := Dhcp4.Client.start_asked client env.now env.previous
  let begun : Interface := { i.rememberRestart env.observed env.previous with
    dhcp := some (client.start env.now env.previous).1, lease := none }
  change (begun.perform (client.start env.now env.previous).2).1.rejudge = _
  have finished : begun.finishRestart.1.rejudge = begun.rejudge := by
    rw [finishRestart]
    split_ifs <;> rfl
  rw [sent]
  exact finished

theorem starts_rejudge (i : Interface) (first second : Environment) :
    ((i.startDhcpWhereDue first).startIpv6WhereDue second).rejudge = i.rejudge := by
  obtain ⟨_, _, same⟩ := startIpv6WhereDue_ipv6 (i.startDhcpWhereDue first) second
  rw [same]
  obtain same | ⟨_, _, _, _, stopped⟩ | ⟨p, mac, _, _, _, started⟩ := startDhcpWhereDue_outcomes i first
  · rw [same]
  · rw [stopped]
    rfl
  · rw [started]
    exact startDhcp_rejudge i first mac p.address.announceHostname

theorem syncLink_rejudge (i : Interface) (link : Link) (outcome : Outcome) :
    (i.syncLink link outcome).rejudge = false := by
  rw [syncLink, adoptOutcome, adoptLink]
  split_ifs <;> rfl

/-! ## New clients have seen nothing -/

theorem begun_defaultRouter (config : Ndp.Config) (now later : ℕ) :
    ((Ndp.Engine.new config).start now).1.defaultRouter later = none := by
  have routers := (Ndp.Engine.tick_schedule (Ndp.Engine.armed config now) now).1
  rw [Ndp.Engine.expire_routers] at routers
  rw [Ndp.Engine.start_eq, Ndp.Engine.defaultRouter, routers]
  rfl

theorem unidentified (sha1 : Bytes → BitVec 160) {i : Interface} (lease : i.lease = none)
    (engine : i.ndp = none ∨ Begun i.ndp) (now : ℕ) : (i.signals now).identity sha1 = none := by
  have router : (i.signals now).router6 = none := by
    rw [signals_router6]
    obtain none | ⟨config, begun, same⟩ := engine
    · rw [none]
      rfl
    · rw [same]
      exact begun_defaultRouter config begun now
  rw [Networks.Signals.identity, signals_server, lease, router]
  rfl

/-- Clients that were stopped are new afterwards, if there are any. -/
theorem Stopped.starts_unidentified {i : Interface} (stopped : Stopped i) (sha1 : Bytes → BitVec 160)
    (first second : Environment) (now : ℕ) :
    (((i.startDhcpWhereDue first).startIpv6WhereDue second).signals now).identity sha1 = none := by
  obtain ⟨-, kept⟩ := startDhcpWhereDue_frame i first
  obtain ⟨-, engine⟩ := startIpv6WhereDue_frame (i.startDhcpWhereDue first) second
  have lease : (i.startDhcpWhereDue first).lease = none := by
    obtain same | ⟨_, _, _, _, stopped⟩ | ⟨p, mac, _, _, _, started⟩ := startDhcpWhereDue_outcomes i first
    · rw [same]
      exact stopped.lease
    · rw [stopped]
      rfl
    · obtain ⟨c, -, lease, -⟩ := startDhcp_spec i first mac p.address.announceHostname
      rw [started]
      exact lease
  refine unidentified sha1 ?_ ?_ now
  · obtain ⟨_, _, same⟩ := startIpv6WhereDue_ipv6 (i.startDhcpWhereDue first) second
    rw [same]
    exact lease
  · obtain none | same | begun := engine
    · exact .inl none
    · exact .inl (same.trans (kept.trans stopped.ndp))
    · exact .inr begun

end Interface

namespace Convergence

open Policy (Conditions)

variable {Condition : Type} {sha1 : Bytes → BitVec 160} {language : Conditions Condition Facts}

/-! ## At one interface -/

/-- A station that a pass of this kernel state has left. -/
structure Settled (language : Conditions Condition Facts) (policy : Policy Condition) (link : Link)
    (env : Interface.Environment) (st : Station) : Prop where
  link : st.interface.link = link
  heard : st.interface.rejudge = false
  judged : Judged language policy st
  ipv4 : st.interface.AtRest env.packetSocket
  ipv6 : st.interface.startIpv6WhereDue env = st.interface

theorem settled_starts {policy : Policy Condition} (st : Station) (link : Link) (env : Interface.Environment) :
    Settled language policy link env
      (((st.syncLink language policy link).startDhcpWhereDue env).startIpv6WhereDue env) where
  link := by
    obtain ⟨-, second, -⟩ := Interface.bearings_eq (Interface.startIpv6WhereDue_bearings
      ((st.syncLink language policy link).startDhcpWhereDue env).interface env)
    obtain ⟨-, first, -⟩ := Interface.bearings_eq (Interface.startDhcpWhereDue_bearings
      (st.syncLink language policy link).interface _)
    refine (second.trans first).trans ?_
    rw [syncLink_interface, Interface.syncLink_link]
  heard := by
    refine (Interface.starts_rejudge (st.syncLink language policy link).interface _ env).trans ?_
    rw [syncLink_interface, Interface.syncLink_rejudge]
  judged := starts_judged (syncLink_judged policy st link) env
  ipv4 := (Interface.startDhcpWhereDue_rests (st.syncLink language policy link).interface _).startIpv6WhereDue env
  ipv6 := Interface.startIpv6WhereDue_twice _ env

/-- Nothing is started, whatever address the network gave last time. -/
theorem Settled.idle {policy : Policy Condition} {link : Link} {env : Interface.Environment} {st : Station}
    (settled : Settled language policy link env st) (previous : Option Ipv4Addr) :
    (st.interface.startDhcpWhereDue { env with previous }).startIpv6WhereDue env = st.interface := by
  have first : st.interface.startDhcpWhereDue { env with previous } = st.interface :=
    Interface.AtRest.startDhcpWhereDue settled.ipv4
  rw [first, settled.ipv6]

theorem Settled.starts {policy : Policy Condition} {link : Link} {env : Interface.Environment} {st : Station}
    (settled : Settled language policy link env st) : (st.startDhcpWhereDue env).startIpv6WhereDue env = st := by
  rw [Station.startIpv6WhereDue, Station.startDhcpWhereDue]
  dsimp only
  rw [settled.idle]

/-- The same link is no news. -/
theorem adoptLink_same {st : Station} (heard : st.interface.rejudge = false) :
    st.adoptLink st.interface.link = st := by
  have same : st.interface.adoptLink st.interface.link = st.interface := by
    rw [Interface.adoptLink, Bool.and_not_self]
    change { st.interface with rejudge := false } = st.interface
    rw [← heard]
  rw [Station.adoptLink, same, Bool.and_not_self]
  rfl

theorem Settled.syncLink {policy : Policy Condition} {link : Link} {env : Interface.Environment} {st : Station}
    (settled : Settled language policy link env st) : st.syncLink language policy link = st := by
  rw [Station.syncLink, ← settled.link, adoptLink_same settled.heard]
  split_ifs with loopback
  · rfl
  · have judged := settled.judged (Bool.eq_false_iff.mpr loopback)
    rw [← judged, Station.adoptJudgment, Station.judgment, Interface.adoptOutcome]
    simp

/-- One pass as an interface of the table meets it. -/
def Station.visit (sha1 : Bytes → BitVec 160) (language : Conditions Condition Facts) (policy : Policy Condition)
    (now : ℕ) (words : String → Words) (env : Interface.Environment) (link : Link) (st : Station) : Station :=
  (((st.identify sha1 now words).syncLink language policy link).startDhcpWhereDue env).startIpv6WhereDue env

theorem identify_of_unidentified {st : Station} {now : ℕ} (words : String → Words)
    (none : st.identified sha1 now = none) : st.identify sha1 now words = st := by
  rw [Station.identify, none]

/-- The same clients find the same network. -/
theorem identify_again {st other : Station} {now : ℕ} {words : String → Words}
    (interface : other.interface = st.interface) (network : other.network = (st.identify sha1 now words).network) :
    other.identify sha1 now words = other := by
  have same : other.identified sha1 now = st.identified sha1 now := by
    rw [Station.identified, interface]
    rfl
  cases found : st.identified sha1 now with
  | none => exact identify_of_unidentified words (same.trans found)
  | some id =>
    rw [Station.identify, found] at network
    dsimp only at network
    have known : (other.network.any fun network => network.id == id) = true := by
      rw [network]
      exact beq_self_eq_true id
    rw [Station.identify, same, found]
    dsimp only
    rw [known, if_pos rfl, ← network]

/-- What a network that is identified changes of the interface. -/
theorem identify_interface (st : Station) (now : ℕ) (words : String → Words) :
    ∃ rejudge, (st.identify sha1 now words).interface = { st.interface with rejudge } := by
  rw [Station.identify]
  cases st.identified sha1 now with
  | none => exact ⟨_, rfl⟩
  | some id =>
    dsimp only
    split_ifs <;> exact ⟨_, rfl⟩

/-- After a pass and another there is nothing left to do. -/
theorem visit_settles (policy : Policy Condition) (now : ℕ) (words : String → Words) (env : Interface.Environment)
    (link : Link) {st : Station} (settled : Settled language policy link env st) :
    let after := st.visit sha1 language policy now words env link
    after.visit sha1 language policy now words env link = after := by
  intro after
  have next : Settled language policy link env after := settled_starts _ link env
  have identified : after.identify sha1 now words = after := by
    let found := st.identify sha1 now words
    obtain ⟨rejudge, only⟩ := @identify_interface sha1 st now words
    obtain stopped | ⟨kept, -⟩ := Interface.syncLink_cases found.interface link
      (policy.judge language (found.adoptLink link).subject.facts).outcome
    · -- Another verdict: whatever runs now is new.
      rw [← syncLink_interface] at stopped
      refine identify_of_unidentified words ?_
      rw [Station.identified]
      split_ifs
      · exact stopped.starts_unidentified sha1 _ env now
      · rfl
    · -- The same verdict: nothing was stopped.
      have synced : (found.syncLink language policy link).interface = st.interface := by
        rw [syncLink_interface, kept, only, ← settled.link]
        change { st.interface with rejudge := false } = st.interface
        rw [← settled.heard]
      have network : (found.syncLink language policy link).network = found.network := by
        have same : found.interface.link = link := by
          rw [only]
          exact settled.link
        rw [syncLink_network, Station.adoptLink, same, Bool.and_not_self]
        rfl
      have interface : after.interface = st.interface := by
        change ((found.syncLink language policy link).interface.startDhcpWhereDue _).startIpv6WhereDue env = _
        rw [synced, settled.idle]
      exact identify_again interface network
  rw [Station.visit, identified, next.syncLink, next.starts]

/-! ## Over the table -/

namespace State

section Passes

variable (sha1 language)

/-- A pass leaves an interface settled. -/
theorem pass_settled (s : State Condition) (now : ℕ) (o : Outside) {index : U32} {link : Link}
    (there : s.observed.links.lookup index = some link) :
    ∃ st, (s.pass sha1 language now o).stations.lookup index = some st ∧
      Settled language s.daemon.policy link (s.environment now o index) st := by
  refine ⟨_, ?_, settled_starts (((s.stations.lookup index).map fun st => st.identify sha1 now (o.words index)).getD
    (.new sha1 (o.identity link.name) link)) link _⟩
  rw [lookup_pass, there]
  rfl

/-- The next pass visits it. -/
theorem lookup_pass_again {s t : State Condition} (daemon : t.daemon = s.daemon) (observed : t.observed = s.observed)
    (now : ℕ) (o : Outside) {index : U32} {link : Link} (there : s.observed.links.lookup index = some link)
    {st : Station} (found : t.stations.lookup index = some st) :
    (t.pass sha1 language now o).stations.lookup index =
      some (st.visit sha1 language s.daemon.policy now (o.words index) (s.environment now o index) link) := by
  have env : t.environment now o index = s.environment now o index := by
    rw [environment, environment, daemon, observed]
  rw [lookup_pass, observed, there, found, daemon, env]
  rfl

end Passes

/-- A pass that changes no interface changes nothing. -/
theorem pass_eq_self {s : State Condition} {now : ℕ} {o : Outside}
    (same : ∀ index, (s.pass sha1 language now o).stations.lookup index = s.stations.lookup index) :
    s.pass sha1 language now o = s := by
  have frame : s.pass sha1 language now o = { s with stations := (s.pass sha1 language now o).stations } := rfl
  rw [frame, SortedMap.ext_lookup same]

/-- Over one kernel state, and with the same answers from outside, a third pass finds nothing to do: every interface is
as the second left it, whatever the daemon was before. -/
theorem passes_settle (s : State Condition) (now : ℕ) (o : Outside) :
    ((s.pass sha1 language now o).pass sha1 language now o).pass sha1 language now o =
      (s.pass sha1 language now o).pass sha1 language now o := by
  apply pass_eq_self
  intro index
  have daemon (t : State Condition) : (t.pass sha1 language now o).daemon = t.daemon := rfl
  have observed (t : State Condition) : (t.pass sha1 language now o).observed = t.observed := rfl
  cases there : s.observed.links.lookup index with
  | none =>
    have gone (t : State Condition) (seen : t.observed = s.observed) :
        (t.pass sha1 language now o).stations.lookup index = none := by
      rw [lookup_pass, seen, there, Option.map_none]
    rw [gone _ ((observed _).trans (observed s)), gone _ (observed s)]
  | some link =>
    obtain ⟨st, first, settled⟩ := pass_settled sha1 language s now o there
    have second := lookup_pass_again sha1 language (daemon s) (observed s) now o there first
    have third := lookup_pass_again sha1 language ((daemon _).trans (daemon s)) ((observed _).trans (observed s)) now o
      there second
    rw [third, second, visit_settles _ _ _ _ _ settled]

end State

end Convergence

end Netd.Model
