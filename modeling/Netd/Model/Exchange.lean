import Netd.Model.Channel
import Netd.Model.Control
import Netd.Model.Convergence
import Netd.Model.Publish

/-! # A control exchange, at both ends

`exchange` of `libnetd/src/lib.rs` with `Channel::send` of `libnetd/src/channel.rs`, which is how a program
asks, and `Netd::handle_control` of `netd/src/main.rs` with `Netd::status`, which is how the daemon answers
and what it does for it. A call of `exchange` goes through the rounds of its two loops, each with an instant
and the kernel's answers.
-/

set_option linter.dupNamespace false

namespace Netd.Model

open Wire

/-! ## What `status` says -/

def Outcome.asStr : Outcome → String
  | join _ => "JOIN"
  | ignore => "IGNORE"
  | down => "DOWN"

def Dhcp4.State.asStr : Dhcp4.State → String
  | init => "init"
  | selecting => "selecting"
  | requesting => "requesting"
  | rebooting => "rebooting"
  | bound => "bound"
  | renewing => "renewing"
  | rebinding => "rebinding"

/-- A lease as `status` reports it. -/
def Dhcp4.Client.leaseStatus (c : Dhcp4.Client) (now : ℕ) : Option LeaseStatus :=
  c.lease.map fun l =>
    { server := Ipv4Addr.display l.server
      expiresIn := BitVec.ofNat 64 ((c.expiresIn now).getD 0)
      state := c.state.asStr
      duration := l.leaseTime.setWidth 64
      renewAt := l.t1.setWidth 64
      rebindAt := l.t2.setWidth 64 }

namespace Convergence

def Station.warning (st : Station) : Option String :=
  if st.conflict then some s!"rules {st.rule} tie; the interface is ignored"
  else if st.interface.discoveryUnanswered then some "asked for an address; nobody answered"
  else none

/-- The gateway of the first default route of a family. -/
def Station.gateway (st : Station) (observed : Observed) (v4 : Bool) : Option String :=
  let route := (observed.routesOf st.interface.link.index).find? fun r => r.isDefault && r.isV4 == v4
  (route.bind fun r => r.gateway).map IpAddr.display

/-- One interface as `status` reports it. -/
def Station.status (st : Station) (observed : Observed) (now : ℕ) : InterfaceStatus :=
  let i := st.interface
  let dns := i.dns now
  { ifid := i.ifid
    name := i.link.name
    index := i.link.index
    mac := (i.link.mac.map Inventory.formatMac).getD ""
    path := st.identity.path
    driver := st.identity.driver
    verdict := if !st.backstop && !st.conflict then some i.outcome.asStr else none
    rule := some st.rule
    profile := i.profile.map fun p => p.path
    network := st.network.map fun n => n.id
    networkName := st.network.bind fun n => n.name
    networkTrust := st.network.bind fun n => n.trust
    warning := st.warning
    up := i.link.up
    carrier := i.link.carrier
    level := i.level observed
    addresses := (observed.addressesOf i.link.index).map Address.display
    gateway := st.gateway observed true
    gateway6 := st.gateway observed false
    dns := dns.servers.map IpAddr.display
    search := dns.search
    lease := i.dhcp.bind fun c => c.leaseStatus now }

namespace State

variable {Condition : Type} (daemon : State Condition)

/-- Every interface but the loopback, and the best level of those that are managed. The hostname that was
set is kept outside; `debug` puts a text between quotes. -/
def status (debug : String → String) (hostnameSet : Option String) (now : ℕ) : Status :=
  let stations := (daemon.stations.entries.map Prod.snd).filter fun st => !st.interface.link.loopback
  { hostname := hostnameSet.getD ""
    level := stations.foldl (fun level st =>
      if st.interface.managed then Level.max level (st.interface.level daemon.observed) else level) .absent
    refusal := daemon.daemon.refusal.map (Refusal.text debug)
    interfaces := stations.map fun st => st.status daemon.observed now }

/-- The first interface that a name or an interface id means. -/
def find (interface : String) : Option (U32 × Station) :=
  daemon.stations.entries.find? fun entry =>
    entry.2.interface.link.name == interface || entry.2.interface.ifid == interface

end State

end Convergence

namespace Exchange

open Channel

/-! ## The daemon -/

/-- What a request meets outside: the rights that the control object gives the peer, the hostname that was
set, the instant, and what the passes of a reconcile meet. -/
structure Circumstances where
  permits : U32 → Bool
  hostnameSet : Option String
  now : ℕ
  rounds : ℕ → Convergence.Round

section Daemon

variable {Condition ε : Type} (sha1 : Bytes → BitVec 160) (language : Policy.Conditions Condition Facts)
  (texts : Texts ε)

/-- What a request makes of the daemon, and the reply; a subscription takes its connection over. -/
def handleControl (w : Circumstances) (daemon : Convergence.State Condition) (request : Wire.Request) :
    Convergence.State Condition × Option Reply :=
  if !w.permits request.requiredRight then (daemon, some (.error "access denied"))
  else
    match request with
    | .status => (daemon, some (.status (daemon.status texts.quoted w.hostnameSet w.now)))
    | .subscribe => (daemon, none)
    | .reconcile => (daemon.converge sha1 language w.now w.rounds, some .ok)
    | .renew interface =>
      match daemon.find interface with
      | none => (daemon, some (.error s!"no interface {interface}"))
      | some (index, st) =>
        if st.interface.dhcp.isNone then (daemon, some (.error s!"{interface} is not using DHCP"))
        else ((daemon.handle sha1 index (.renew w.now)).1, some .ok)

end Daemon

/-! ## The program -/

/-- What a program asks for with one exchange. -/
inductive Command where
  | status
  | renew (interface : String)
  | reconcile
deriving DecidableEq, Repr

def Command.request : Command → Wire.Request
  | status => .status
  | renew interface => .renew interface
  | reconcile => .reconcile

/-- Where a call of `exchange` stands: what it has not written yet, what it has read of the reply, or what
it returned. A request that the writer refuses stops the program. -/
inductive Stage where
  | sending (pending : Bytes)
  | receiving (incoming : Bytes)
  | returned (result : Except IoError Reply)
  | stopped
deriving DecidableEq

structure Caller where
  command : Command
  until_ : ℕ
  stage : Stage

/-- One round of the sending loop: the instant at its top, how many octets the kernel says it took, and
what waiting for room comes to. -/
structure SendRound where
  now : ℕ
  write : Except IoError ℕ
  waited : Except IoError Unit

section Exchange

variable {ε : Type} (codec : Msgpack ε) (texts : Texts ε)

/-- Connected, with the whole frame to send. -/
def Caller.start (command : Command) (until_ : ℕ) : Caller where
  command
  until_
  stage :=
    match codec.toBytes command.request.tokens with
    | none => .stopped
    | some payload =>
      if payload.length > maxMessageBytes then .returned (.error (invalid "request exceeds 64 KiB"))
      else .sending (frame payload)

/-- A round of `send`: the octets that were taken, and where the call stands then. -/
def sendRound (pending : Bytes) (until_ : ℕ) (round : SendRound) : Bytes × Stage :=
  if until_ < round.now then ([], .returned (.error ⟨.timedOut, "netd operation timed out"⟩))
  else
    match round.write with
    | .ok 0 => ([], .returned (.error ⟨.other, "netd closed while writing"⟩))
    | .ok count =>
      let rest := pending.drop count
      (pending.take count, if rest.isEmpty then .receiving [] else .sending rest)
    | .error e =>
      match e.kind with
      | .interrupted => ([], .sending pending)
      | .wouldBlock =>
        match round.waited with
        | .ok () => ([], .sending pending)
        | .error e => ([], .returned (.error e))
      | _ => ([], .returned (.error e))

/-- What `exchange` makes of the reply it received. -/
def settle (command : Command) : Except IoError Reply → Except IoError Reply
  | .error e => .error e
  | .ok (.error message) => .error ⟨.other, message⟩
  | .ok (.status s) =>
    match command with
    | .status => .ok (.status s)
    | .renew _ | .reconcile => .error (invalid "unexpected netd reply type")
  | .ok .ok =>
    match command with
    | .renew _ | .reconcile => .ok .ok
    | .status => .error (invalid "unexpected netd reply type")
  | .ok (.snapshot _) => .error (invalid "unexpected netd reply type")

/-- Where a call stands after a round of `receive`, and what is left in the stream. -/
def receiveRound (command : Command) (until_ : ℕ) (stream incoming : Bytes) (round : Round) : Bytes × Stage :=
  match (⟨stream, incoming⟩ : Channel).receiveRound codec texts until_ round with
  | (c, none) => (c.stream, .receiving c.incoming)
  | (c, some result) => (c.stream, .returned (settle command result))

end Exchange

end Exchange

end Netd.Model
