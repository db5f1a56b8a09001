import Netd.Proofs.EventLoop.Engines
import Netd.Proofs.Interface.Offers
import Netd.Proofs.Reconcile.Ownership

/-! # Kernel state kept over a restart

What the kernel had at the first start of a DHCPv4 client stays in place until the client's
INIT-REBOOT is answered. Four functions own a part of that: the first start captures, `perform`
ends, stopping a client drops, and the desired state keeps. An entry of the table is followed with
a record of what was captured in it.
-/

namespace Netd.Model.Interface

/-! ## Entries and their captures -/

/-- What a start of the client looked at when it captured provisional state. -/
structure Capture where
  observed : Observed
  index : U32
  requested : Option Ipv4Addr

/-- An entry of the table with a record of its captures. -/
structure Entry where
  interface : Interface
  captures : List Capture

namespace Entry

def new (ifid : String) (link : Link) : Entry := ⟨Interface.new ifid link, []⟩

/-- A stage of a pass that starts no DHCPv4 client, or an event. -/
def stage (t : Entry) (after : Interface) : Entry := { t with interface := after }

/-- A client that was not there before was started now. Provisional state that the start remembered
was captured by it. -/
def startDhcpWhereDue (t : Entry) (env : Environment) : Entry where
  interface := t.interface.startDhcpWhereDue env
  captures :=
    if t.interface.dhcp.isNone && (t.interface.startDhcpWhereDue env).dhcp.isSome &&
        (t.interface.rememberRestart env.observed env.previous).restart.isSome then
      t.captures ++ [⟨env.observed, t.interface.link.index, env.previous⟩]
    else t.captures

def pass (t : Entry) (p : Pass) : Entry :=
  let t := t.stage (t.interface.syncLink p.link p.outcome)
  let t := t.startDhcpWhereDue p.env
  t.stage (t.interface.startIpv6WhereDue p.env)

/-- A slot of the table with a record of its captures; a new entry has none. -/
def slots (sha1 : Bytes → BitVec 160) : Transducer (Option Entry) Step Unit where
  step slot
    | .sight s => (s.link.map fun link => (slot.getD (.new s.ifid link)).pass ⟨link, s.outcome, s.env⟩, ())
    | .event event => (slot.map fun t => t.stage (t.interface.handle sha1 event).1, ())

/-- The record is kept beside the table and does not change it. -/
theorem run_interface (sha1 : Bytes → BitVec 160) (slot : Option Entry) (steps : List Step) :
    ((Entry.slots sha1).run slot steps).map Entry.interface =
      (Interface.slots sha1).run (slot.map Entry.interface) steps := by
  induction steps generalizing slot with
  | nil => rfl
  | cons step rest ih =>
    refine (ih _).trans (congrArg (fun slot => (Interface.slots sha1).run slot rest) ?_)
    cases step with
    | sight s =>
      change (s.link.map _).map Entry.interface = s.link.map _
      rw [Option.map_map]
      cases slot <;> rfl
    | event event => cases slot <;> rfl

end Entry

/-! ## The invariant -/

/-- What goes with pending provisional state: an INIT-REBOOT under way, no lease, a profile, and the
one capture the state comes from. -/
structure Pending (t : Entry) (restart : Restart) : Prop where
  rebooting : t.interface.dhcp.map (fun c => c.state) = some .rebooting
  unleased : t.interface.lease = none
  joined : ∃ p, t.interface.outcome = .join p
  captured : ∃ c, t.captures = [c] ∧ Restart.capture c.observed c.index c.requested = some restart

/-- What every reachable entry has. -/
structure Restarting (t : Entry) : Prop where
  valid : ∀ c ∈ t.interface.dhcp, c.Valid
  first : t.interface.firstDhcpStart = true → t.captures = []
  once : t.captures.length ≤ 1
  pending : ∀ restart ∈ t.interface.restart, Pending t restart

/-- The part of an interface that provisional state depends on. -/
def ipv4 (i : Interface) : Outcome × Option Dhcp4.Client × Option Dhcp4.Lease × Option Restart × Bool :=
  (i.outcome, i.dhcp, i.lease, i.restart, i.firstDhcpStart)

theorem Restarting.congr {t : Entry} {after : Interface} (restarting : Restarting t)
    (same : after.ipv4 = t.interface.ipv4) : Restarting (t.stage after) := by
  simp only [ipv4, Prod.mk.injEq] at same
  obtain ⟨outcome, dhcp, lease, restart, first⟩ := same
  refine ⟨?_, ?_, restarting.once, ?_⟩
  · change ∀ c ∈ after.dhcp, c.Valid
    rw [dhcp]
    exact restarting.valid
  · change after.firstDhcpStart = true → _
    rw [first]
    exact restarting.first
  · intro kept member
    change after.restart = some kept at member
    obtain ⟨rebooting, unleased, joined, captured⟩ := restarting.pending kept (restart ▸ member)
    exact ⟨dhcp ▸ rebooting, lease.trans unleased, outcome ▸ joined, captured⟩

/-- Nothing is pending where no client runs. -/
theorem Restarting.stopped {t : Entry} {after : Interface} (restarting : Restarting t)
    (dhcp : after.dhcp = none) (restart : after.restart = none)
    (first : after.firstDhcpStart = t.interface.firstDhcpStart) : Restarting (t.stage after) := by
  refine ⟨?_, ?_, restarting.once, ?_⟩
  · change ∀ c ∈ after.dhcp, c.Valid
    simp [dhcp]
  · change after.firstDhcpStart = true → _
    rw [first]
    exact restarting.first
  · intro kept member
    change after.restart = some kept at member
    rw [restart] at member
    contradiction

theorem new_restarting (ifid : String) (link : Link) : Restarting (.new ifid link) where
  valid _ none := nomatch none
  first _ := rfl
  once := Nat.zero_le 1
  pending _ none := nomatch none

/-! ## Events -/

theorem performAction_restart (r : Interface × Bool) (action : Dhcp4.Action) :
    (performAction r action).1.restart = r.1.restart ∧
      (performAction r action).1.firstDhcpStart = r.1.firstDhcpStart := by
  obtain ⟨i, changed⟩ := r
  cases action with
  | send message destination => exact ⟨rfl, rfl⟩
  | bound lease => exact ⟨rfl, rfl⟩
  | noOffer =>
    simp only [performAction]
    split_ifs <;> exact ⟨rfl, rfl⟩
  | lost =>
    simp only [performAction]
    split_ifs <;> exact ⟨rfl, rfl⟩

/-- Performing actions keeps provisional state as it is, or ends it. -/
theorem perform_restart (i : Interface) (actions : List Dhcp4.Action) :
    (i.perform actions).1.firstDhcpStart = i.firstDhcpStart ∧
      (i.dhcp.map (fun c => c.state) = some .rebooting → (i.perform actions).1.restart = i.restart) ∧
      (i.dhcp.map (fun c => c.state) ≠ some .rebooting → (i.perform actions).1.restart = none) := by
  have every (r : Interface × Bool) : (actions.foldl performAction r).1.restart = r.1.restart ∧
      (actions.foldl performAction r).1.firstDhcpStart = r.1.firstDhcpStart := by
    induction actions generalizing r with
    | nil => exact ⟨rfl, rfl⟩
    | cons action rest ih =>
      obtain ⟨restart, first⟩ := performAction_restart r action
      obtain ⟨restart', first'⟩ := ih (performAction r action)
      exact ⟨restart'.trans restart, first'.trans first⟩
  obtain ⟨restart, first⟩ := every i.finishRestart
  rw [perform, restart, first, finishRestart]
  split_ifs with ended
  · exact ⟨rfl, fun rebooting => absurd rebooting ended, fun _ => rfl⟩
  · exact ⟨rfl, fun _ => rfl, fun gone => absurd gone ended⟩

/-- From INIT-REBOOT to INIT-REBOOT the client reports nothing about a lease. -/
theorem rebooting_keeps_lease {c after : Dhcp4.Client} {now : ℕ} {actions : List Dhcp4.Action}
    (move : c.Move now after actions) (before : c.state = .rebooting) (still : after.state = .rebooting)
    (keep : Bool) (known : Option Dhcp4.Lease) : actions.foldl (copy keep) known = known := by
  cases move with
  | ignored => rfl
  | asks unheld notice acquiring => obtain rfl | rfl := notice <;> rfl
  | loses held acquiring =>
    rw [before] at held
    contradiction
  | renews renewal => rfl
  | binds accepted trusted => contradiction

/-- A client that moved, with its actions performed. -/
theorem Restarting.moved {t : Entry} {c after : Dhcp4.Client} {now : ℕ} {actions : List Dhcp4.Action}
    (restarting : Restarting t) (client : t.interface.dhcp = some c) (move : c.Move now after actions) :
    Restarting (t.stage (perform { t.interface with dhcp := some after } actions).1) := by
  obtain ⟨fixed, lease⟩ := perform_spec { t.interface with dhcp := some after } actions
  obtain ⟨first, kept, ended⟩ := perform_restart { t.interface with dhcp := some after } actions
  simp only [Interface.fixed, Prod.mk.injEq] at fixed
  obtain ⟨_, outcome, dhcp, _, _⟩ := fixed
  generalize perform { t.interface with dhcp := some after } actions = r at *
  refine ⟨?_, ?_, restarting.once, ?_⟩
  · change ∀ c ∈ r.1.dhcp, c.Valid
    rw [dhcp]
    rintro _ ⟨⟩
    exact move.valid (restarting.valid c client)
  · change r.1.firstDhcpStart = true → _
    rw [first]
    exact restarting.first
  · intro restart member
    change r.1.restart = some restart at member
    by_cases rebooting : after.state = .rebooting
    · have still : (some after).map (fun c => c.state) = some .rebooting := congrArg some rebooting
      obtain ⟨before, unleased, joined, captured⟩ :=
        restarting.pending restart ((kept still).symm.trans member)
      have was : c.state = .rebooting := by
        rw [client] at before
        exact Option.some.inj before
      refine ⟨by rw [Entry.stage, dhcp]; exact still, ?_, outcome ▸ joined, captured⟩
      refine lease.trans ?_
      rw [rebooting_keeps_lease move was rebooting]
      exact unleased
    · rw [ended fun still => rebooting (Option.some.inj still)] at member
      contradiction

theorem receiveMessage_restarting {t : Entry} (restarting : Restarting t) (now : ℕ)
    (message : Dhcp4.Message) : Restarting (t.stage (t.interface.receiveMessage now message).1) := by
  rw [receiveMessage]
  cases client : t.interface.dhcp with
  | none => exact restarting
  | some c => exact restarting.moved client (Dhcp4.Client.receive_move now message (restarting.valid c client))

theorem tickDhcp_restarting {t : Entry} (restarting : Restarting t) (now : ℕ) :
    Restarting (t.stage (t.interface.tickDhcp now).1) := by
  rw [tickDhcp]
  cases client : t.interface.dhcp with
  | none =>
    obtain ⟨first, _, ended⟩ := perform_restart t.interface []
    obtain ⟨dhcp, _, _⟩ := perform_frame t.interface []
    refine restarting.stopped (dhcp.trans client) (ended ?_) first
    rw [client]
    intro running
    contradiction
  | some c => exact restarting.moved client (Dhcp4.Client.tick_move now (restarting.valid c client))

theorem renew_restarting {t : Entry} (restarting : Restarting t) (now : ℕ) :
    Restarting (t.stage (t.interface.renew now).1) := by
  rw [renew]
  cases client : t.interface.dhcp with
  | none => exact restarting
  | some c => exact restarting.moved client (Dhcp4.Client.renewNow_move now (restarting.valid c client))

theorem Ipv6Only.ipv4 {i j : Interface} (only : Ipv6Only i j) : j.ipv4 = i.ipv4 := by
  obtain ⟨_, _, rfl⟩ := only
  rfl

theorem handle_restarting (sha1 : Bytes → BitVec 160) {t : Entry} (restarting : Restarting t)
    (event : Event) : Restarting (t.stage (t.interface.handle sha1 event).1) := by
  cases event with
  | message now message => exact receiveMessage_restarting restarting now message
  | advert now message => exact restarting.congr ((handle_ipv6 sha1 t.interface now).1 message).ipv4
  | datagram now datagram => exact restarting.congr ((handle_ipv6 sha1 t.interface now).2.1 datagram).ipv4
  | tickDhcp now => exact tickDhcp_restarting restarting now
  | tickNdp now => exact restarting.congr (handle_ipv6 sha1 t.interface now).2.2.1.ipv4
  | tickDhcp6 now => exact restarting.congr (handle_ipv6 sha1 t.interface now).2.2.2.ipv4
  | renew now => exact renew_restarting restarting now

/-! ## Passes -/

theorem syncLink_firstDhcpStart (i : Interface) (link : Link) (outcome : Outcome) :
    (i.syncLink link outcome).firstDhcpStart = i.firstDhcpStart := by
  have adopted : (i.adoptLink link).firstDhcpStart = i.firstDhcpStart := by
    rw [adoptLink]
    split_ifs <;> rfl
  rw [syncLink, adoptOutcome]
  split_ifs <;> exact adopted

theorem syncLink_restarting {t : Entry} (restarting : Restarting t) (link : Link) (outcome : Outcome) :
    Restarting (t.stage (t.interface.syncLink link outcome)) := by
  obtain stopped | ⟨same, _⟩ := syncLink_cases t.interface link outcome
  · exact restarting.stopped stopped.dhcp stopped.restart (syncLink_firstDhcpStart t.interface link outcome)
  · rw [same]
    exact restarting.congr rfl

/-- A start is no longer the first one, and leaves what it remembered to an INIT-REBOOT only. -/
theorem startDhcp_restart (i : Interface) (env : Environment) (mac : Mac) (announceHostname : Bool) :
    (i.startDhcp env mac announceHostname).firstDhcpStart = false ∧
      ∀ restart ∈ (i.startDhcp env mac announceHostname).restart,
        (i.startDhcp env mac announceHostname).dhcp.map (fun c => c.state) = some .rebooting ∧
          (i.rememberRestart env.observed env.previous).restart = some restart := by
  let client := Dhcp4.Client.new
    { chaddr := mac
      clientId := env.clientId
      hostname := if announceHostname then env.hostname else none
      seed := env.entropy4 ^^^ i.link.index.setWidth 64 } env.created
  let before : Interface :=
    { i.rememberRestart env.observed env.previous with
      dhcp := some (client.start env.now env.previous).1
      lease := none }
  have started : i.startDhcp env mac announceHostname =
      (before.perform (client.start env.now env.previous).2).1 := rfl
  obtain ⟨first, kept, ended⟩ := perform_restart before (client.start env.now env.previous).2
  obtain ⟨dhcp, _, _⟩ := perform_frame before (client.start env.now env.previous).2
  rw [started]
  refine ⟨first, fun restart member => ?_⟩
  by_cases rebooting : before.dhcp.map (fun c => c.state) = some .rebooting
  · exact ⟨(congrArg _ dhcp).trans rebooting, (kept rebooting).symm.trans member⟩
  · rw [ended rebooting] at member
    contradiction

theorem outcome_of_profile {i : Interface} {p : Profile} (profile : i.profile = some p) :
    i.outcome = .join p := by
  rw [Interface.profile] at profile
  split_ifs at profile
  cases outcome : i.outcome with
  | join q =>
    rw [outcome] at profile
    exact congrArg _ (Option.some.inj profile)
  | ignore =>
    rw [outcome] at profile
    contradiction
  | down =>
    rw [outcome] at profile
    contradiction

/-- Only a first start remembers anything. -/
theorem first_of_remembered {i : Interface} {observed : Observed} {requested : Option Ipv4Addr}
    {restart : Restart} (remembered : (i.rememberRestart observed requested).restart = some restart) :
    i.firstDhcpStart = true ∧ Restart.capture observed i.link.index requested = some restart := by
  rw [rememberRestart] at remembered
  dsimp only at remembered
  split_ifs at remembered with first
  exact ⟨first, remembered⟩

theorem startDhcpWhereDue_restarting {t : Entry} (restarting : Restarting t) (env : Environment) :
    Restarting (t.startDhcpWhereDue env) := by
  obtain same | ⟨_, _, _, _, stopped⟩ | ⟨p, mac, profile, _, idle, started⟩ :=
    startDhcpWhereDue_outcomes t.interface env
  · have quiet : t.startDhcpWhereDue env = t.stage t.interface := by
      rw [Entry.startDhcpWhereDue, same]
      cases t.interface.dhcp <;> rfl
    rw [quiet]
    exact restarting
  · have quiet : t.startDhcpWhereDue env = t.stage t.interface.stopDhcp := by
      rw [Entry.startDhcpWhereDue, stopped]
      cases t.interface.dhcp <;> rfl
    rw [quiet]
    exact restarting.stopped rfl rfl rfl
  · obtain ⟨client, fixed, lease, valid, _⟩ := startDhcp_spec t.interface env mac p.address.announceHostname
    obtain ⟨first, kept⟩ := startDhcp_restart t.interface env mac p.address.announceHostname
    simp only [Interface.fixed, Prod.mk.injEq] at fixed
    obtain ⟨_, outcome, dhcp, _, _⟩ := fixed
    have shape : t.startDhcpWhereDue env =
        { interface := t.interface.startDhcp env mac p.address.announceHostname
          captures :=
            if (t.interface.rememberRestart env.observed env.previous).restart.isSome then
              t.captures ++ [⟨env.observed, t.interface.link.index, env.previous⟩]
            else t.captures } := by
      rw [Entry.startDhcpWhereDue, started, idle, dhcp]
      rfl
    rw [shape]
    generalize t.interface.startDhcp env mac p.address.announceHostname = after at *
    refine ⟨?_, fun again => absurd (first.symm.trans again) Bool.false_ne_true, ?_, ?_⟩
    · dsimp only
      rw [dhcp]
      rintro _ ⟨⟩
      exact valid
    · dsimp only
      split_ifs with remembered
      · obtain ⟨restart, found⟩ := Option.isSome_iff_exists.mp remembered
        rw [restarting.first (first_of_remembered found).1]
        exact le_rfl
      · exact restarting.once
    · intro restart member
      obtain ⟨rebooting, found⟩ := kept restart member
      obtain ⟨fresh, captured⟩ := first_of_remembered found
      refine ⟨rebooting, lease, ⟨p, outcome.trans (outcome_of_profile profile)⟩,
        ⟨env.observed, t.interface.link.index, env.previous⟩, ?_, captured⟩
      dsimp only
      rw [found, restarting.first fresh]
      rfl

theorem pass_restarting {t : Entry} (restarting : Restarting t) (p : Pass) : Restarting (t.pass p) := by
  have synced := syncLink_restarting restarting p.link p.outcome
  exact (startDhcpWhereDue_restarting synced p.env).congr (startIpv6WhereDue_ipv6 _ p.env).ipv4

/-- A slot that is empty, or whose entry is as it should be. -/
theorem next_restarting (sha1 : Bytes → BitVec 160) (slot : Option Entry) (step : Step)
    (before : ∀ t ∈ slot, Restarting t) : ∀ t ∈ (Entry.slots sha1).next slot step, Restarting t := by
  intro t member
  cases step with
  | sight s =>
    obtain ⟨link, _, rfl⟩ := Option.map_eq_some_iff.mp member
    apply pass_restarting
    cases slot with
    | none => exact new_restarting s.ifid link
    | some u => exact before u rfl
  | event event =>
    obtain ⟨u, there, rfl⟩ := Option.map_eq_some_iff.mp member
    exact handle_restarting sha1 (before u there) event

/-! ## What is kept in place -/

theorem names_captured {c : Capture} {requested : Ipv4Addr} {restart : Restart}
    (captured : Restart.capture c.observed c.index (some requested) = some restart) {old : Address}
    (seen : old ∈ c.observed.addressesOf c.index) (address : old.address = .v4 requested) :
    (requested, old.prefixLength) ∈ restart.addresses := by
  rw [Restart.capture, Option.bind_some] at captured
  dsimp only at captured
  split_ifs at captured
  obtain rfl := Option.some.inj captured
  exact List.mem_map.mpr ⟨old, List.mem_filter.mpr ⟨seen, decide_eq_true address⟩, rfl⟩

/-- The desired state names every address that pending provisional state holds. -/
theorem Pending.names {t : Entry} {restart : Restart} (pending : Pending t restart)
    (held : t.interface.restart = some restart) {now : ℕ} {d : Reconcile.Desired}
    (wanted : t.interface.desired now = some d) {entry : Ipv4Addr × U8} (member : entry ∈ restart.addresses) :
    d.Names (.v4 entry.1) entry.2 := by
  obtain ⟨p, joined⟩ := pending.joined
  rw [desired_join joined] at wanted
  split_ifs at wanted
  obtain rfl := Option.some.inj wanted
  refine .inl ⟨entry, ?_, rfl, rfl⟩
  rw [joined_addresses, held]
  exact List.mem_append_right _ (List.mem_flatMap.mpr ⟨restart, List.mem_singleton_self _, member⟩)

/-- INIT-REBOOT is under way whenever there is something to ask for, so a start ends nothing. -/
theorem startDhcp_keeps (i : Interface) (env : Environment) (mac : Mac) (announceHostname : Bool) :
    (i.startDhcp env mac announceHostname).restart =
      (i.rememberRestart env.observed env.previous).restart := by
  let client := Dhcp4.Client.new
    { chaddr := mac
      clientId := env.clientId
      hostname := if announceHostname then env.hostname else none
      seed := env.entropy4 ^^^ i.link.index.setWidth 64 } env.created
  let before : Interface :=
    { i.rememberRestart env.observed env.previous with
      dhcp := some (client.start env.now env.previous).1
      lease := none }
  obtain ⟨_, kept, ended⟩ := perform_restart before (client.start env.now env.previous).2
  cases previous : env.previous with
  | some address =>
    refine Eq.trans (kept ?_) (congrArg (fun asked => (i.rememberRestart env.observed asked).restart) previous)
    change some (client.start env.now env.previous).1.state = _
    rw [previous]
    rfl
  | none =>
    have idle : (i.rememberRestart env.observed none).restart = none := by
      rw [rememberRestart]
      dsimp only
      split_ifs <;> rfl
    rw [idle]
    apply ended
    change some (client.start env.now env.previous).1.state ≠ _
    rw [previous]
    exact fun same => nomatch Option.some.inj same

/-! ## Reports -/

/-- A handler that ends provisional state says so. -/
def Announces (handler : Interface → Interface × Bool) : Prop :=
  ∀ i, (handler i).2 = false → (handler i).1.restart = i.restart

theorem Announces.andThen {before : Option Restart} {r : Interface × Bool}
    {handler : Interface → Interface × Bool} (told : r.2 = false → r.1.restart = before)
    (announces : Announces handler) :
    (andThen r handler).2 = false → (andThen r handler).1.restart = before := by
  intro silent
  obtain ⟨first, second⟩ := Bool.or_eq_false_iff.mp silent
  exact (announces r.1 second).trans (told first)

theorem Announces.foldl {α : Type*} {before : Option Restart} {r : Interface × Bool}
    {handler : α → Interface → Interface × Bool} (told : r.2 = false → r.1.restart = before)
    (announces : ∀ input, Announces (handler input)) (inputs : List α) :
    let after := inputs.foldl (fun r input => Interface.andThen r (handler input)) r
    after.2 = false → after.1.restart = before := by
  induction inputs generalizing r with
  | nil => exact told
  | cons input rest ih => exact ih (Announces.andThen told (announces input))

/-- Performing actions reports the end of what was pending. -/
theorem perform_announces {i : Interface} {c : Option Dhcp4.Client} {actions : List Dhcp4.Action}
    (silent : (perform { i with dhcp := c } actions).2 = false) :
    (perform { i with dhcp := c } actions).1.restart = i.restart :=
  congrArg Standing.restart (perform_silent silent)

theorem restart_of_ipv4 {i j : Interface} (same : j.ipv4 = i.ipv4) : j.restart = i.restart :=
  congrArg (fun part => part.2.2.2.1) same

theorem handle_announces (sha1 : Bytes → BitVec 160) (event : Event) :
    Announces fun i => i.handle sha1 event := by
  intro i
  cases event with
  | message now message =>
    dsimp only [handle]
    rw [receiveMessage]
    cases i.dhcp with
    | none => exact fun _ => rfl
    | some c => exact perform_announces
  | tickDhcp now =>
    dsimp only [handle]
    rw [tickDhcp]
    cases i.dhcp with
    | none => exact fun silent => congrArg Standing.restart (perform_silent silent)
    | some c => exact perform_announces
  | renew now =>
    dsimp only [handle]
    rw [renew]
    cases i.dhcp with
    | none => exact fun _ => rfl
    | some c => exact perform_announces
  | advert now message => exact fun _ => restart_of_ipv4 ((handle_ipv6 sha1 i now).1 message).ipv4
  | datagram now datagram => exact fun _ => restart_of_ipv4 ((handle_ipv6 sha1 i now).2.1 datagram).ipv4
  | tickNdp now => exact fun _ => restart_of_ipv4 (handle_ipv6 sha1 i now).2.2.1.ipv4
  | tickDhcp6 now => exact fun _ => restart_of_ipv4 (handle_ipv6 sha1 i now).2.2.2.ipv4

theorem serve_announces (sha1 : Bytes → BitVec 160) (it : Iteration) :
    Announces fun i => i.serve sha1 it := by
  intro i
  have start : (i, false).2 = false → (i, false).1.restart = i.restart := fun _ => rfl
  have messages := Announces.foldl start (fun m => handle_announces sha1 (.message it.now m)) it.messages
  have adverts := Announces.foldl messages (fun m => handle_announces sha1 (.advert it.now m)) it.adverts
  have datagrams := Announces.foldl adverts (fun m => handle_announces sha1 (.datagram it.now m)) it.datagrams
  have ticked := Announces.andThen datagrams (handle_announces sha1 (.tickDhcp it.now))
  have engine := Announces.andThen ticked (handle_announces sha1 (.tickNdp it.now))
  exact Announces.andThen engine (handle_announces sha1 (.tickDhcp6 it.now))

/-- What ended was pending, so its end was reported. -/
theorem Announces.ended {handler : Interface → Interface × Bool} (announces : Announces handler)
    {i : Interface} (pending : i.restart.isSome = true) (ended : (handler i).1.restart = none) :
    (handler i).2 = true := by
  by_contra silent
  rw [← announces i (Bool.eq_false_of_not_eq_true silent), ended] at pending
  contradiction

/-- The operator's renewals are for leases; an INIT-REBOOT goes on as it was. -/
theorem renew_rebooting {i : Interface} (rebooting : i.dhcp.map (fun c => c.state) = some .rebooting)
    (now : ℕ) : (i.renew now).1.restart = i.restart := by
  rw [renew]
  cases client : i.dhcp with
  | none => rfl
  | some c =>
    rw [client] at rebooting
    have state : c.state = .rebooting := Option.some.inj rebooting
    have ignored : c.renewNow now = (c, []) := by
      rw [Dhcp4.Client.renewNow, state]
      rfl
    simp only [ignored]
    obtain ⟨_, kept, _⟩ := perform_restart { i with dhcp := some c } []
    exact kept (congrArg some state)

/-! ## Whole lives -/

/-- What holds of an entry after every handler, with a record of its captures. -/
structure Preserved (sha1 : Bytes → BitVec 160) (t : Entry) : Prop where
  rebooting : t.interface.restart.isSome = true →
    t.interface.lease = none ∧ ∃ c, t.interface.dhcp = some c ∧ c.state = .rebooting ∧ c.lease = none
  once : t.captures.length ≤ 1
  started : ∀ env mac announceHostname, (t.interface.startDhcp env mac announceHostname).restart =
    (t.interface.rememberRestart env.observed env.previous).restart
  spared : t.interface.restart.isSome = true → ∃ c requested, t.captures = [c] ∧
    c.requested = some requested ∧ t.interface.restart = Restart.capture c.observed c.index c.requested ∧
    ∀ observed now d, t.interface.desired now = some d →
      ∀ old ∈ c.observed.addressesOf c.index, old.address = .v4 requested →
        ∀ a, .delAddress a ∈ Reconcile.plan observed d →
          ¬(a.address = old.address ∧ a.prefixLength = old.prefixLength)
  reported : t.interface.restart.isSome = true → ∀ event,
    (t.interface.handle sha1 event).1.restart = none → (t.interface.handle sha1 event).2 = true
  renewals : t.interface.restart.isSome = true → ∀ now,
    (t.interface.renew now).1.restart = t.interface.restart
  reconciled : t.interface.restart.isSome = true → ∀ (s : Loop) (turn : Turn),
    s.interface = t.interface → (s.interface.serve sha1 turn.iteration).1.restart = none →
      (s.interface.serve sha1 turn.iteration).2 = true ∧ (s.turn sha1 turn).applied =
        Loop.reconciled (s.turn sha1 turn).interface (s.turn sha1 turn).last

theorem Restarting.preserved (sha1 : Bytes → BitVec 160) {t : Entry} (restarting : Restarting t) :
    Preserved sha1 t where
  rebooting kept := by
    obtain ⟨restart, held⟩ := Option.isSome_iff_exists.mp kept
    obtain ⟨rebooting, unleased, _, _⟩ := restarting.pending restart held
    obtain ⟨c, client, state⟩ := Option.map_eq_some_iff.mp rebooting
    have idle := (restarting.valid c client).unheld (by rw [state]; rfl)
    exact ⟨unleased, c, client, state, idle.1⟩
  once := restarting.once
  started := startDhcp_keeps t.interface
  spared kept := by
    obtain ⟨restart, held⟩ := Option.isSome_iff_exists.mp kept
    have pending := restarting.pending restart held
    obtain ⟨c, only, captured⟩ := pending.captured
    cases asked : c.requested with
    | none =>
      rw [asked] at captured
      contradiction
    | some requested =>
      refine ⟨c, requested, only, asked, held.trans (asked ▸ captured.symm), ?_⟩
      intro observed now d wanted old seen address a planned same
      rw [asked] at captured
      have member := names_captured captured seen address
      have named := pending.names held wanted member
      apply (Reconcile.plan_permitted planned).2.2
      rw [same.1, same.2, address]
      exact named
  reported kept event := (handle_announces sha1 event).ended kept
  renewals kept now := by
    obtain ⟨restart, held⟩ := Option.isSome_iff_exists.mp kept
    exact renew_rebooting (restarting.pending restart held).rebooting now
  reconciled kept s turn same ended := by
    rw [← same] at kept
    have told := (serve_announces sha1 turn.iteration).ended kept ended
    refine ⟨told, ?_⟩
    rw [Loop.turn]
    simp only [told, Bool.true_or, ↓reduceIte]

/-- After any steps in the life of an entry, provisional state is pending only in an INIT-REBOOT
without a lease, comes from the one capture of the entry, keeps what was captured from every plan,
and ends with a report. -/
theorem restart_preserved (sha1 : Bytes → BitVec 160) (steps : List Step) :
    ((Entry.slots sha1).run none steps).map Entry.interface = (Interface.slots sha1).run none steps ∧
      ∀ t ∈ (Entry.slots sha1).run none steps, Preserved sha1 t := by
  refine ⟨Entry.run_interface sha1 none steps, fun t member => ?_⟩
  have empty : ∀ t ∈ (none : Option Entry), Restarting t := fun _ none => nomatch none
  have every := (Entry.slots sha1).run_invariant (next_restarting sha1) empty steps
  exact (every t member).preserved sha1

/-- A link on which the address of an earlier lease still stands, with a route of netd's. -/
def resumed : Sighting where
  ifid := "eth0"
  link := some ⟨2, "eth0", some 0x020000000001#48, true, true, false, 1500, 1, .ether⟩
  outcome := .join { path := "office", enabled := true, address := { offered := true }, dns := {} }
  env :=
    { now := 0
      observed :=
        { links := .empty
          addresses := [.new 2 (.v4 0xc0000209) 24]
          routes := [Reconcile.netdRoute 2 (.v4 Ipv4Addr.unspecified) 0 (.v4 0xc0000201) 100] }
      hostname := none
      clientId := []
      duid := []
      secret := none
      previous := some 0xc0000209
      created := 0
      entropy4 := 1
      entropy6 := 2
      packetSocket := true
      icmp6Socket := false
      dhcp6Socket := false }

/-- Nobody has answered a second after the first start, and after two requests the client gives up. -/
theorem restart_preserved_resumed :
    ((Entry.slots fun _ => 0).run none [.sight resumed, .event (.tickDhcp (Duration.fromSecs 1))]).map
        (fun t => t.interface.restart.map Restart.addresses) = some (some [(0xc0000209, 24)]) ∧
      ((Entry.slots fun _ => 0).run none
        [.sight resumed, .event (.tickDhcp (Duration.fromSecs 10)), .event (.tickDhcp (Duration.fromSecs 20))]).map
          (fun t => t.interface.restart.isNone) = some true ∧
      ∀ t ∈ (Entry.slots fun _ => 0).run none [.sight resumed, .event (.tickDhcp (Duration.fromSecs 1))],
        Preserved (fun _ => 0) t :=
  ⟨by decide +kernel, by decide +kernel, (restart_preserved (fun _ => 0) _).2⟩

end Netd.Model.Interface
