import Netd.Model.Interface

/-! # The event loop, seen from one interface

`netd/src/event_loop.rs` with the passes of `netd/src/main.rs` that start and stop clients: an
iteration receives what its sockets hold, ticks every client at one instant, and serves control
requests; a pass brings the interface in line with the kernel's link, the interface layer's verdict
and the profile. What a pass reads from outside the interface comes in an `Environment`. What the
loop applies and publishes is taken at the instant of the iteration.
-/

namespace Netd.Model

namespace Interface

section Handlers

variable (sha1 : Bytes → BitVec 160)

/-! ## One iteration -/

/-- Run one handler after another and join what they report. -/
def andThen (first : Interface × Bool) (next : Interface → Interface × Bool) : Interface × Bool :=
  ((next first.1).1, first.2 || (next first.1).2)

/-- One message from the packet socket; without a client there is no socket. -/
def receiveMessage (now : ℕ) (message : Dhcp4.Message) (i : Interface) : Interface × Bool :=
  match i.dhcp with
  | none => (i, false)
  | some client =>
    let (client, actions) := client.receive now message
    perform { i with dhcp := some client } actions

/-- One ICMPv6 message with its source and hop limit; one that crossed a router is dropped. -/
def receiveAdvert (now : ℕ) (message : Ipv6Addr × U8 × Bytes) (i : Interface) : Interface × Bool :=
  if message.2.1 ≠ 255 || !isV6LinkLocal message.1 then (i, false)
  else
    match i.ndp with
    | none => (i, false)
    | some engine =>
      let (engine, actions) := engine.receive sha1 now message.1 message.2.2
      ({ i with ndp := some engine }, performNdp actions)

/-- One datagram from the DHCPv6 socket. -/
def receiveDatagram (now : ℕ) (datagram : Bytes) (i : Interface) : Interface × Bool :=
  match i.dhcp6 with
  | none => (i, false)
  | some client =>
    let (client, actions) := client.receive now datagram
    ({ i with dhcp6 := some client }, performDhcp6 actions)

/-- The actions of a DHCPv4 tick are performed even where there is no client. -/
def tickDhcp (now : ℕ) (i : Interface) : Interface × Bool :=
  match i.dhcp with
  | none => i.perform []
  | some client =>
    let (client, actions) := client.tick now
    perform { i with dhcp := some client } actions

def tickNdp (now : ℕ) (i : Interface) : Interface × Bool :=
  match i.ndp with
  | none => (i, false)
  | some engine =>
    let (engine, actions) := engine.tick now
    ({ i with ndp := some engine }, performNdp actions)

def tickDhcp6 (now : ℕ) (i : Interface) : Interface × Bool :=
  match i.dhcp6 with
  | none => (i, false)
  | some client =>
    let (client, actions) := client.tick now
    ({ i with dhcp6 := some client }, performDhcp6 actions)

/-- A renewal the operator asked for; the control socket ignores what `perform` returns. -/
def renew (now : ℕ) (i : Interface) : Interface × Bool :=
  match i.dhcp with
  | none => (i, false)
  | some client =>
    let (client, actions) := client.renewNow now
    perform { i with dhcp := some client } actions

/-- What one iteration of the event loop meets at an interface: what its sockets hold, and the
renewals asked for on the control socket. -/
structure Iteration where
  now : ℕ
  messages : List Dhcp4.Message
  adverts : List (Ipv6Addr × U8 × Bytes)
  datagrams : List Bytes
  renewals : List ℕ

/-- What every socket holds. -/
def receive (i : Interface) (it : Iteration) : Interface × Bool :=
  let r := it.messages.foldl (fun r m => andThen r (receiveMessage it.now m)) (i, false)
  let r := it.adverts.foldl (fun r m => andThen r (receiveAdvert sha1 it.now m)) r
  it.datagrams.foldl (fun r m => andThen r (receiveDatagram it.now m)) r

/-- Receive from every socket, then tick every client. -/
def serve (i : Interface) (it : Iteration) : Interface × Bool :=
  andThen (andThen (andThen (i.receive sha1 it) (tickDhcp it.now)) (tickNdp it.now)) (tickDhcp6 it.now)

/-- A whole iteration, control requests included, and whether any perform function returned true. -/
def iterate (i : Interface) (it : Iteration) : Interface × Bool :=
  it.renewals.foldl (fun r now => andThen r (renew now)) (i.serve sha1 it)

end Handlers

/-! ## Starting and stopping clients -/

/-- A goodbye may be sent, and everything learnt over DHCP is forgotten. -/
def stopDhcp (i : Interface) : Interface :=
  { i with
    dhcp := none
    lease := none
    restart := none
    linkLocal := none
    discoveryUnanswered := false }

def stopIpv6 (i : Interface) : Interface := { i with ndp := none, dhcp6 := none }

/-- The kernel's link; the network is on the other side of the carrier. -/
def adoptLink (i : Interface) (link : Link) : Interface :=
  let hadCarrier := i.link.carrier && i.link.up
  let hasCarrier := link.carrier && link.up
  let i := { i with link, rejudge := false }
  if hadCarrier && !hasCarrier then i.stopDhcp.stopIpv6 else i

/-- The interface layer's verdict; a different one starts over rather than trust the old lease. -/
def adoptOutcome (i : Interface) (outcome : Outcome) : Interface :=
  let changed := decide (outcome ≠ i.outcome)
  let i := { i with outcome }
  if changed then i.stopDhcp.stopIpv6 else i

def syncLink (i : Interface) (link : Link) (outcome : Outcome) : Interface :=
  if link.loopback then i.adoptLink link else (i.adoptLink link).adoptOutcome outcome

/-- What a pass takes from outside the interface. -/
structure Environment where
  now : ℕ
  observed : Observed
  hostname : Option String
  clientId : Bytes
  duid : Bytes
  secret : Option Bytes
  previous : Option Ipv4Addr
  created : ℕ
  entropy4 : U64
  entropy6 : U64
  packetSocket : Bool
  icmp6Socket : Bool
  dhcp6Socket : Bool

/-- A new DHCPv4 client, asking for the address this network gave last time. -/
def startDhcp (i : Interface) (env : Environment) (mac : Mac) (announceHostname : Bool) : Interface :=
  let client := Dhcp4.Client.new
    { chaddr := mac
      clientId := env.clientId
      hostname := if announceHostname then env.hostname else none
      seed := env.entropy4 ^^^ i.link.index.setWidth 64 } env.created
  let (client, actions) := client.start env.now env.previous
  let i := i.rememberRestart env.observed env.previous
  (perform { i with dhcp := some client, lease := none } actions).1

def startDhcpWhereDue (i : Interface) (env : Environment) : Interface :=
  match i.profile with
  | none => i
  | some p =>
    let wants := i.managed && p.address.dhcp4
    let can := i.link.up && i.link.carrier
    let i := if i.dhcp.isSome && !(wants && can) then i.stopDhcp else i
    if wants && can && i.dhcp.isNone then
      match i.link.mac with
      | none => i
      | some mac => if env.packetSocket then i.startDhcp env mac p.address.announceHostname else i
    else i

/-- The kernel-made link-local address, once duplicate address detection has finished with it. -/
def linkLocalOf (observed : Observed) (index : U32) : Option Ipv6Addr :=
  (observed.addressesOf index).findSome? fun a =>
    match a.address with
    | .v6 address => if isV6LinkLocal address && !a.tentative then some address else none
    | .v4 _ => none

/-- The jitter seed of an engine, from the interface's own name. -/
def ndpSeed (ifid : String) (index : U32) : U64 :=
  (asBytes ifid).foldl (fun seed octet => seed.rotateLeft 8 ^^^ octet.setWidth 64) 0 ^^^
    (index.setWidth 64 <<< 32)

def startNdp (i : Interface) (env : Environment) (secret : Bytes) : Interface :=
  let engine := Ndp.Engine.new
    { interface := i.ifid
      secret
      temporary := (i.profile.map fun p => p.address.temporary).getD false
      mac := i.link.mac
      seed := ndpSeed i.ifid i.link.index }
  { i with ndp := some (engine.start env.now).1 }

/-- DHCPv6, once the routers have asked for it. -/
def startDhcp6WhereDue (i : Interface) (env : Environment) : Interface :=
  let wanted6 := (i.ndp.map fun e => e.wantsDhcp6).getD false
  let i := if i.dhcp6.isSome && !wanted6 then { i with dhcp6 := none } else i
  if wanted6 && i.dhcp6.isNone && (linkLocalOf env.observed i.link.index).isSome &&
      env.dhcp6Socket && i.link.mac.isSome then
    let client := Dhcp6.Client.new
      { duid := env.duid
        seed := env.entropy6 ^^^ i.link.index.setWidth 64 }
    { i with dhcp6 := some (client.start env.now).1 }
  else i

def startIpv6WhereDue (i : Interface) (env : Environment) : Interface :=
  match i.profile with
  | none => i
  | some p =>
    let wants := i.managed && p.address.autoconf6
    let can := i.link.up && i.link.carrier && (linkLocalOf env.observed i.link.index).isSome
    let i := if i.ndp.isSome && !(wants && can) then i.stopIpv6 else i
    if wants && can && i.ndp.isNone then
      if env.icmp6Socket then
        match env.secret with
        | some secret => (i.startNdp env secret).startDhcp6WhereDue env
        | none => i
      else i
    else i.startDhcp6WhereDue env

/-- One pass of `converge` as it concerns an interface. -/
structure Pass where
  link : Link
  outcome : Outcome
  env : Environment

def pass (i : Interface) (p : Pass) : Interface :=
  ((i.syncLink p.link p.outcome).startDhcpWhereDue p.env).startIpv6WhereDue p.env

end Interface

namespace Interface

/-! ## Appearing and disappearing -/

/-- What reaches the clients of an interface between passes. -/
inductive Event where
  | message (now : ℕ) (message : Dhcp4.Message)
  | advert (now : ℕ) (message : Ipv6Addr × U8 × Bytes)
  | datagram (now : ℕ) (datagram : Bytes)
  | tickDhcp (now : ℕ)
  | tickNdp (now : ℕ)
  | tickDhcp6 (now : ℕ)
  | renew (now : ℕ)

def handle (sha1 : Bytes → BitVec 160) (i : Interface) : Event → Interface × Bool
  | .message now message => i.receiveMessage now message
  | .advert now message => i.receiveAdvert sha1 now message
  | .datagram now datagram => i.receiveDatagram now datagram
  | .tickDhcp now => i.tickDhcp now
  | .tickNdp now => i.tickNdp now
  | .tickDhcp6 now => i.tickDhcp6 now
  | .renew now => i.renew now

/-- A pass as it concerns one index of the table: the kernel's link there, if there is one, the name
an interface that is first seen there gets, and what the layer and the environment say. -/
structure Sighting where
  ifid : String
  link : Option Link
  outcome : Outcome
  env : Environment

/-- An index without a link is dropped, and one without an interface gets a new one. -/
def passAt (slot : Option Interface) (s : Sighting) : Option Interface :=
  s.link.map fun link => (slot.getD (Interface.new s.ifid link)).pass ⟨link, s.outcome, s.env⟩

/-- One step in the life of an index. -/
inductive Step where
  | sight (sighting : Sighting)
  | event (event : Event)

def stepAt (sha1 : Bytes → BitVec 160) (slot : Option Interface) : Step → Option Interface
  | .sight sighting => passAt slot sighting
  | .event event => slot.map fun i => (i.handle sha1 event).1

/-- One index of the table as a machine. -/
def slots (sha1 : Bytes → BitVec 160) : Transducer (Option Interface) Step Unit where
  step slot s := (stepAt sha1 slot s, ())

end Interface

/-! ## The loop -/

/-- A pass that was asked for on the control socket, as the passes it took, with the renewals that
were served after it. -/
structure Request where
  passes : List Interface.Pass
  renewals : List ℕ

/-- One turn of the loop: an iteration, the passes asked for in it and those it was followed by, and
whether another interface asked for a reconcile. -/
structure Turn where
  iteration : Interface.Iteration
  requests : List Request
  passes : List Interface.Pass
  elsewhere : Bool

/-- The interface, the instant of the last iteration, and what was last applied to the kernel and
published for name resolution. -/
structure Loop where
  interface : Interface
  last : ℕ
  applied : Option Reconcile.Desired × DnsFacts

namespace Loop

/-- What a reconcile applies and publishes. -/
def reconciled (i : Interface) (now : ℕ) : Option Reconcile.Desired × DnsFacts :=
  (i.desired now, i.dns now)

/-- The passes before the first iteration. -/
def start (ifid : String) (link : Link) (now : ℕ) (passes : List Interface.Pass) : Loop :=
  let i := passes.foldl Interface.pass (Interface.new ifid link)
  { interface := i
    last := now
    applied := reconciled i now }

/-- A pass reconciles whatever was reported; a renewal does not. -/
def serveRequest (s : Loop) (request : Request) : Loop :=
  let after := request.passes.foldl Interface.pass s.interface
  { s with
    interface := request.renewals.foldl (fun i now => (i.renew now).1) after
    applied := reconciled after s.last }

/-- A turn reconciles when a handler reported a change here or elsewhere, when the interface is to be
judged again, or when a pass ran for another reason; what renewals report is not asked. -/
def turn (sha1 : Bytes → BitVec 160) (s : Loop) (t : Turn) : Loop :=
  let changed := (s.interface.serve sha1 t.iteration).2
  let served := t.requests.foldl serveRequest
    { s with
      interface := (s.interface.iterate sha1 t.iteration).1
      last := t.iteration.now }
  let after := t.passes.foldl Interface.pass served.interface
  { served with
    interface := after
    applied :=
      if changed || served.interface.rejudge || !t.passes.isEmpty || t.elsewhere then
        reconciled after served.last
      else served.applied }

/-- The loop as a machine that takes turns. -/
def machine (sha1 : Bytes → BitVec 160) : Transducer Loop Turn Unit where
  step s t := (s.turn sha1 t, ())

end Loop

end Netd.Model
