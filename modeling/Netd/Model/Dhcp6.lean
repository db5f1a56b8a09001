import Netd.Machine.Transducer
import Netd.Machine.Deadline
import Netd.Model.Ndp.Packet

/-! # The stateless DHCPv6 client

`dhcp6/src/lib.rs`: the information-request exchange, clock-injected and socket-free. A request is
repeated with a growing interval until a valid reply arrives, and asked again when the reply's
refresh time is over. The walk over wire names is the one of the neighbour-discovery codec, which
the source has twice.
-/

namespace Netd.Model.Dhcp6

abbrev informationRequest : U8 := 11
abbrev reply : U8 := 7

abbrev optionClientId : U16 := 1
abbrev optionServerId : U16 := 2
abbrev optionOro : U16 := 6
abbrev optionElapsedTime : U16 := 8
abbrev optionDnsServers : U16 := 23
abbrev optionDomainList : U16 := 24
abbrev optionInformationRefreshTime : U16 := 32

/-- Retransmission (RFC 8415 §7.6). -/
def firstRetransmit : ℕ := Duration.fromSecs 1

def maxRetransmit : ℕ := Duration.fromSecs 3600

/-- Refresh default and floor (RFC 8415 §21.23). -/
def refreshDefault : ℕ := Duration.fromSecs 86400

def refreshMinimum : ℕ := Duration.fromSecs 600

/-- Ceiling against a hostile server. -/
def maxServers : ℕ := 16

/-- What the network said. -/
structure Info where
  dns : List Ipv6Addr
  search : List String
deriving DecidableEq, Repr

/-- What the caller must do. -/
inductive Action where
  | send (message : Bytes)
  | changed
deriving DecidableEq, Repr

structure Config where
  duid : Bytes
  seed : U64
deriving DecidableEq, Repr

/-! ## The wire format -/

def pushOption (out : Bytes) (code : U16) (data : Bytes) : Bytes :=
  out ++ toBeBytes 2 code ++ toBeBytes 2 (BitVec.ofNat 16 data.length) ++ data

/-- The options of a region; a truncated option ends the walk. -/
def options (octets : Bytes) : List (U16 × Bytes) :=
  match octets with
  | c0 :: c1 :: l0 :: l1 :: rest =>
    let length := (fromBeBytes [l0, l1] : U16).toNat
    if rest.length < length then []
    else (fromBeBytes [c0, c1], rest.take length) :: options (rest.drop length)
  | _ => []
termination_by octets.length
decreasing_by
  simp only [List.length_drop, List.length_cons]
  omega

def refreshTime (datagram : Bytes) : Option ℕ :=
  if datagram.length < 4 then none
  else
    ((options (datagram.drop 4)).find? fun (code, data) =>
      code = optionInformationRefreshTime ∧ data.length = 4).map
      fun (_, data) => Duration.fromSecs (fromBeBytes data : U32).toNat

/-- Uncompressed DNS wire names. -/
def domainList (octets : Bytes) : List String := Ndp.domainList octets

/-- Hundredths of a second, saturating. -/
def elapsed (started : Option ℕ) (now : ℕ) : U16 :=
  match started with
  | none => 0
  | some started => BitVec.ofNat 16 (min (Duration.asMillis (now - started) / 10) 65535)

structure Client where
  config : Config
  rng : U64
  txid : BitVec 24
  started : Option ℕ
  retransmitAt : Option ℕ
  retransmitInterval : ℕ
  refreshAt : Option ℕ
  info : Option Info
deriving DecidableEq, Repr

namespace Client

def new (config : Config) : Client where
  config
  rng := config.seed ||| 1
  txid := 0
  started := none
  retransmitAt := none
  retransmitInterval := firstRetransmit
  refreshAt := none
  info := none

def nextRandom (rng : U64) : U64 :=
  let rng := rng ^^^ (rng <<< 13)
  let rng := rng ^^^ (rng >>> 7)
  rng ^^^ (rng <<< 17)

def jitter (rng : U64) (interval : ℕ) : ℕ × U64 :=
  let millis := Duration.asMillis interval
  let rng := nextRandom rng
  (Duration.fromMillis (millis - millis / 10 + rng.toNat % (millis / 5 + 1)), rng)

def beginExchange (c : Client) (now : ℕ) : Client :=
  let rng := nextRandom c.rng
  { c with
    rng
    txid := rng.setWidth 24
    started := some now
    retransmitInterval := firstRetransmit
    retransmitAt := some now
    refreshAt := none }

def nextDeadline (c : Client) : Option ℕ := Deadline.sooner c.retransmitAt c.refreshAt

/-- The options an information request asks for. -/
def requestedOptions : Bytes :=
  [optionDnsServers, optionDomainList, optionInformationRefreshTime].flatMap (toBeBytes 2)

def request (c : Client) (now : ℕ) : Bytes :=
  let out := [informationRequest] ++ toBeBytes 3 c.txid
  let out := pushOption out optionClientId c.config.duid
  let out := pushOption out optionElapsedTime (toBeBytes 2 (elapsed c.started now))
  pushOption out optionOro requestedOptions

def tick (c : Client) (now : ℕ) : Client × List Action :=
  let c := if c.refreshAt.any (· ≤ now) then c.beginExchange now else c
  if c.retransmitAt.any (· ≤ now) then
    let (jittered, rng) := jitter c.rng c.retransmitInterval
    ({ c with
        rng
        retransmitInterval := min (c.retransmitInterval * 2) maxRetransmit
        retransmitAt := some (now + jittered) }, [.send (c.request now)])
  else (c, [])

def start (c : Client) (now : ℕ) : Client × List Action := (c.beginExchange now).tick now

/-- What one option of a reply says; `none` is a reply to another client. -/
def readOption (c : Client) : Bool × Bool × Info → U16 × Bytes → Option (Bool × Bool × Info)
  | (clientIdOurs, serverId, info), (code, data) =>
    if code = optionClientId then
      if data ≠ c.config.duid then none else some (true, serverId, info)
    else if code = optionServerId then some (clientIdOurs, !data.isEmpty, info)
    else if code = optionDnsServers ∧ data.length % 16 = 0 then
      let dns := ((Ndp.chunksOfSixteen data).take maxServers).filter fun server =>
        !server.isUnspecified && !server.isMulticast && !server.isLoopback
      some (clientIdOurs, serverId, { info with dns })
    else if code = optionDomainList then
      some (clientIdOurs, serverId, { info with search := domainList data })
    else some (clientIdOurs, serverId, info)

/-- A reply for our transaction, echoing our client id, with a server id. -/
def parseReply (c : Client) (datagram : Bytes) : Option Info :=
  if datagram.length < 4 ∨ datagram.getD 0 0 ≠ reply ∨ Ndp.slice datagram 1 4 ≠ toBeBytes 3 c.txid then none
  else
    match (options (datagram.drop 4)).foldlM (readOption c) (false, false, ⟨[], []⟩) with
    | some (true, true, info) => some info
    | _ => none

/-- Feed one datagram from port 547. -/
def receive (c : Client) (now : ℕ) (datagram : Bytes) : Client × List Action :=
  if c.retransmitAt.isNone then (c, [])
  else
    match c.parseReply datagram with
    | none => (c, [])
    | some info =>
      let refresh := max ((refreshTime datagram).getD refreshDefault) refreshMinimum
      let c := { c with retransmitAt := none, started := none, refreshAt := some (now + refresh) }
      if c.info = some info then (c, [])
      else ({ c with info := some info }, [.changed])

/-- The operations a caller has. -/
inductive Op where
  | start (now : ℕ)
  | tick (now : ℕ)
  | receive (now : ℕ) (datagram : Bytes)
deriving DecidableEq, Repr

def machine : Transducer Client Op (List Action) where
  step c
    | .start now => c.start now
    | .tick now => c.tick now
    | .receive now datagram => c.receive now datagram

end Client

end Netd.Model.Dhcp6
