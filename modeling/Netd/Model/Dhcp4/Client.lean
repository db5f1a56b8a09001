import Netd.Machine.Transducer
import Netd.Machine.Deadline
import Netd.Model.Dhcp4.Packet

/-! # The DHCPv4 client state machine

`dhcp4/src/client.rs`, clock-injected and socket-free: the caller feeds time and packets and
performs the actions returned. Every method that mutates the client is a function to the new
client and its actions, in the order in which the source emits them. The retry counter is
unbounded here; the source only compares it with small constants.
-/

namespace Netd.Model.Dhcp4

/-- Where to send a message. -/
inductive Destination where
  | broadcast
  | unicast (server source : Ipv4Addr)
deriving DecidableEq, Repr

/-- What the caller must do. -/
inductive Action where
  | send (message : Message) (destination : Destination)
  | bound (lease : Lease)
  | noOffer
  | lost
deriving DecidableEq, Repr

structure Config where
  chaddr : Mac
  clientId : Bytes
  hostname : Option String
  seed : U64
deriving DecidableEq, Repr

inductive State where
  | init
  | selecting
  | requesting
  | rebooting
  | bound
  | renewing
  | rebinding
deriving DecidableEq, Repr

/-- The states that hold a lease, which `release` and `renew_now` ask for. -/
def State.holds : State → Bool
  | .bound | .renewing | .rebinding => true
  | .init | .selecting | .requesting | .rebooting => false

/-- Discovers before `noOffer` is reported. -/
def discoversBeforeNoOffer : ℕ := 3

/-- Requests before giving up on an offer. -/
def maxRequests : ℕ := 4

/-- Backoff ceiling, RFC 2131 §4.1. -/
def maxBackoff : ℕ := Duration.fromSecs 64

def firstBackoff : ℕ := Duration.fromSecs 4

/-- Minimum retransmit interval while renewing or rebinding, §4.4.5. -/
def minRetransmit : ℕ := Duration.fromSecs 60

structure Client where
  config : Config
  state : State
  rng : U64
  xid : U32
  started : ℕ
  retransmitAt : Option ℕ
  backoff : ℕ
  attempts : ℕ
  noOfferReported : Bool
  offer : Option Message
  lease : Option Lease
  boundAt : Option ℕ
  rebootAddress : Option Ipv4Addr
deriving DecidableEq, Repr

namespace Client

/-- `created` is the instant the source reads from the clock. -/
def new (config : Config) (created : ℕ) : Client where
  config := config
  state := .init
  rng := config.seed ||| 1
  xid := 0
  started := created
  retransmitAt := none
  backoff := firstBackoff
  attempts := 0
  noOfferReported := false
  offer := none
  lease := none
  boundAt := none
  rebootAddress := none

/-- Seconds until the lease expires, if bound. -/
def expiresIn (c : Client) (now : ℕ) : Option ℕ :=
  c.lease.bind fun lease => c.boundAt.map fun boundAt =>
    Duration.asSecs (boundAt + Duration.fromSecs lease.leaseTime.toNat - now)

/-! ## Messages -/

/-- xorshift64*: the new generator state. -/
def xorshift (rng : U64) : U64 :=
  let x := rng ^^^ (rng >>> 12)
  let x := x ^^^ (x <<< 25)
  x ^^^ (x >>> 27)

/-- The number drawn in a generator state. -/
def scramble (rng : U64) : U32 := ((rng * 0x2545F4914F6CDD1D#64) >>> 32).setWidth 32

def nextRandom (c : Client) : U32 × Client :=
  (scramble (xorshift c.rng), { c with rng := xorshift c.rng })

def baseMessage (c : Client) (now : ℕ) : Message :=
  { Message.request c.xid c.config.chaddr with
    secs := BitVec.ofNat 16 (min (Duration.asSecs (now - c.started)) 65535) }

def parameterRequestList : Bytes :=
  [option.subnetMask, option.router, option.dns, option.hostname, option.domainName, option.mtu,
    option.broadcast, option.ntp, option.leaseTime, option.renewalT1, option.rebindingT2,
    option.domainSearch, option.classlessStaticRoute]

def commonOptions (c : Client) (message : Message) (kind : MessageType) : Message :=
  let m := message.pushOption option.messageType [kind.toU8]
  let m := m.pushOption option.clientId c.config.clientId
  let m := m.pushOption option.maxMessageSize (toBeBytes 2 1500#16)
  let m := m.pushOption option.parameterRequestList parameterRequestList
  match c.config.hostname with
  | some hostname => m.pushOption option.hostname (asBytes hostname)
  | none => m

/-- ±1 s jitter, then double, capped (RFC 2131 §4.1). -/
def scheduleBackoff (c : Client) (now : ℕ) : Client :=
  let jitter := Duration.fromMillis (c.nextRandom.1.toNat % 2000)
  { c.nextRandom.2 with
    retransmitAt := some (now + c.backoff + jitter - Duration.fromSecs 1)
    backoff := min (c.backoff * 2) maxBackoff }

def sendDiscover (c : Client) (now : ℕ) : Client × List Action :=
  let m := c.commonOptions { c.baseMessage now with broadcast := true } .discover
  let m := match c.rebootAddress with
    | some address => m.pushOption option.requestedIp address.octets
    | none => m
  (c.scheduleBackoff now, [.send m .broadcast])

def enterSelecting (c : Client) (now : ℕ) : Client × List Action :=
  sendDiscover
    { c.nextRandom.2 with
      state := .selecting
      xid := c.nextRandom.1
      attempts := 0
      backoff := firstBackoff
      offer := none } now

def sendRequestForOffer (c : Client) (now : ℕ) : Client × List Action :=
  match c.offer with
  | none => c.enterSelecting now
  | some offer =>
    let m := c.commonOptions { c.baseMessage now with broadcast := true } .request
    let m := m.pushOption option.requestedIp offer.yiaddr.octets
    let m := match offer.options.get option.serverId with
      | some server => m.pushOption option.serverId server
      | none => m
    (c.scheduleBackoff now, [.send m .broadcast])

def sendRebootRequest (c : Client) (now : ℕ) : Client × List Action :=
  match c.rebootAddress with
  | none => c.enterSelecting now
  | some address =>
    let m := c.commonOptions { c.baseMessage now with broadcast := true } .request
    let m := m.pushOption option.requestedIp address.octets
    (c.scheduleBackoff now, [.send m .broadcast])

/-- Retransmit at half the remaining time to the next boundary, never more often than every
60 s (§4.4.5). -/
def sendRenewal (c : Client) (now : ℕ) : Client × List Action :=
  match c.lease, c.boundAt with
  | some lease, some boundAt =>
    let m := c.commonOptions { c.baseMessage now with ciaddr := lease.address } .request
    let destination := match c.state with
      | .renewing => Destination.unicast lease.server lease.address
      | _ => Destination.broadcast
    let boundary := match c.state with
      | .renewing => lease.t2
      | _ => lease.leaseTime
    let remaining := boundAt + Duration.fromSecs boundary.toNat - now
    ({ c with retransmitAt := some (now + max (remaining / 2) minRetransmit) }, [.send m destination])
  | _, _ => (c, [])

/-! ## Transitions -/

def enterRequesting (c : Client) (now : ℕ) : Client × List Action :=
  sendRequestForOffer { c with state := .requesting, attempts := 0, backoff := firstBackoff } now

def enterRebooting (c : Client) (now : ℕ) : Client × List Action :=
  sendRebootRequest
    { c.nextRandom.2 with
      state := .rebooting
      xid := c.nextRandom.1
      attempts := 0
      backoff := firstBackoff } now

def enterRenewing (c : Client) (now : ℕ) : Client × List Action :=
  sendRenewal { c.nextRandom.2 with state := .renewing, xid := c.nextRandom.1, attempts := 0 } now

def enterRebinding (c : Client) (now : ℕ) : Client × List Action :=
  sendRenewal { c.nextRandom.2 with state := .rebinding, xid := c.nextRandom.1, attempts := 0 } now

def retransmit (c : Client) (now : ℕ) : Client × List Action :=
  match c.state with
  | .selecting =>
    let c := { c with attempts := c.attempts + 1 }
    if discoversBeforeNoOffer ≤ c.attempts ∧ c.noOfferReported = false then
      let sent := sendDiscover { c with noOfferReported := true } now
      (sent.1, .noOffer :: sent.2)
    else c.sendDiscover now
  | .requesting =>
    let c := { c with attempts := c.attempts + 1 }
    -- The offer went stale; start over.
    if maxRequests ≤ c.attempts then c.enterSelecting now else c.sendRequestForOffer now
  | .rebooting =>
    let c := { c with attempts := c.attempts + 1 }
    -- Nobody confirmed the old address; discover afresh.
    if 2 ≤ c.attempts then enterSelecting { c with rebootAddress := none } now
    else c.sendRebootRequest now
  | .renewing | .rebinding => c.sendRenewal now
  | .init | .bound => (c, [])

/-! ## Operations -/

/-- Begin. With a remembered address, try INIT-REBOOT first. -/
def start (c : Client) (now : ℕ) (previous : Option Ipv4Addr) : Client × List Action :=
  let c := { c with
    started := now
    lease := none
    boundAt := none
    offer := none
    noOfferReported := false }
  match previous with
  | some address => enterRebooting { c with rebootAddress := some address } now
  | none => c.enterSelecting now

/-- Give the address back and stop. The caller unconfigures. -/
def release (c : Client) (now : ℕ) : Client × List Action :=
  let actions := match c.lease with
    | some lease =>
      if c.state.holds then
        let m := { c.baseMessage now with ciaddr := lease.address }
        let m := m.pushOption option.messageType [MessageType.release.toU8]
        let m := m.pushOption option.serverId lease.server.octets
        let m := m.pushOption option.clientId c.config.clientId
        [Action.send m (.unicast lease.server lease.address)]
      else []
    | none => []
  ({ c with state := .init, lease := none, boundAt := none, retransmitAt := none }, actions)

/-- Force a renewal now (operator request). -/
def renewNow (c : Client) (now : ℕ) : Client × List Action :=
  if c.state.holds then c.enterRenewing now else (c, [])

/-- The instant of a time of the held lease, counted from when it was obtained. -/
def leaseInstant (boundAt : ℕ) (seconds : U32) : ℕ :=
  boundAt + Duration.fromSecs seconds.toNat

/-- The lease-time boundary at which the state changes. -/
def boundary (c : Client) : Option ℕ :=
  match c.lease, c.boundAt with
  | some lease, some boundAt =>
    match c.state with
    | .bound => some (leaseInstant boundAt lease.t1)
    | .renewing => some (leaseInstant boundAt lease.t2)
    | .rebinding => some (leaseInstant boundAt lease.leaseTime)
    | .init | .selecting | .requesting | .rebooting => none
  | _, _ => none

def nextDeadline (c : Client) : Option ℕ := Deadline.sooner c.retransmitAt c.boundary

/-- Lease-time boundaries first: they change state. The last component says that the lease
expired, after which `tick` returns at once. -/
def crossBoundary (c : Client) (now : ℕ) : Client × List Action × Bool :=
  match c.lease, c.boundAt with
  | some lease, some boundAt =>
    match c.state with
    | .bound =>
      if leaseInstant boundAt lease.t1 ≤ now then
        ((c.enterRenewing now).1, (c.enterRenewing now).2, false)
      else (c, [], false)
    | .renewing =>
      if leaseInstant boundAt lease.t2 ≤ now then
        ((c.enterRebinding now).1, (c.enterRebinding now).2, false)
      else (c, [], false)
    | .rebinding =>
      if leaseInstant boundAt lease.leaseTime ≤ now then
        let selecting := enterSelecting { c with lease := none, boundAt := none } now
        (selecting.1, .lost :: selecting.2, true)
      else (c, [], false)
    | .init | .selecting | .requesting | .rebooting => (c, [], false)
  | _, _ => (c, [], false)

/-- Retransmit if that is due. -/
def retransmitDue (c : Client) (now : ℕ) : Client × List Action :=
  match c.retransmitAt with
  | some due => if due ≤ now then c.retransmit now else (c, [])
  | none => (c, [])

/-- The clock moved. Fire whatever is due. -/
def tick (c : Client) (now : ℕ) : Client × List Action :=
  let crossed := c.crossBoundary now
  if crossed.2.2 then (crossed.1, crossed.2.1)
  else
    let resent := crossed.1.retransmitDue now
    (resent.1, crossed.2.1 ++ resent.2)

/-- The server that an ACK or NAK must come from, once one has been chosen. -/
def chosen (c : Client) : Option Ipv4Addr :=
  (c.lease.map Lease.server).or (c.offer.bind fun offer => offer.options.ipv4 option.serverId)

/-- Whether a message of this kind comes from a stranger: an ACK or NAK that does not carry the
chosen server's identifier. -/
def stranger (c : Client) (kind : MessageType) (message : Message) : Bool :=
  (kind == .ack || kind == .nak) &&
    c.chosen.any fun server => message.options.ipv4 option.serverId != some server

/-- An ACK: bind, if it describes a lease. -/
def receiveAck (c : Client) (now : ℕ) (message : Message) : Client × List Action :=
  match Lease.fromAck message with
  | some lease =>
    ({ c with
        noOfferReported := false
        state := .bound
        retransmitAt := none
        boundAt := some now
        lease := some lease
        rebootAddress := some lease.address }, [.bound lease])
  | none => (c, [])

/-- What a message of a known kind, from a server we listen to, does in each state. -/
def dispatch (c : Client) (now : ℕ) (kind : MessageType) (message : Message) :
    Client × List Action :=
  match c.state, kind with
  | .selecting, .offer =>
    if message.yiaddr.isUnspecified || (message.options.ipv4 option.serverId).isNone then (c, [])
    else enterRequesting { c with offer := some message } now
  | .requesting, .ack | .rebooting, .ack | .renewing, .ack | .rebinding, .ack =>
    c.receiveAck now message
  | .requesting, .nak | .rebooting, .nak =>
    enterSelecting { c with rebootAddress := none, offer := none } now
  | .renewing, .nak | .rebinding, .nak =>
    let selecting := enterSelecting { c with lease := none, boundAt := none, rebootAddress := none } now
    (selecting.1, .lost :: selecting.2)
  | _, _ => (c, [])

/-- A packet arrived on the interface. Anything not for us is ignored. -/
def receive (c : Client) (now : ℕ) (message : Message) : Client × List Action :=
  if !message.isReply || message.xid != c.xid || message.chaddr != c.config.chaddr then (c, [])
  else match message.messageType with
    | none => (c, [])
    | some kind => if c.stranger kind message then (c, []) else c.dispatch now kind message

/-- The operations a caller has. -/
inductive Op where
  | start (now : ℕ) (previous : Option Ipv4Addr)
  | release (now : ℕ)
  | renewNow (now : ℕ)
  | tick (now : ℕ)
  | receive (now : ℕ) (message : Message)
deriving DecidableEq, Repr

def machine : Transducer Client Op (List Action) where
  step c
    | .start now previous => c.start now previous
    | .release now => c.release now
    | .renewNow now => c.renewNow now
    | .tick now => c.tick now
    | .receive now message => c.receive now message

end Client

end Netd.Model.Dhcp4
