import Mathlib.Data.String.Basic
import Netd.Machine.Transducer
import Netd.Machine.Deadline
import Netd.Model.Ndp.Packet

/-! # The SLAAC engine

`ndp/src/engine.rs`: one state machine per interface, clock-injected and socket-free. It holds what
the routers of the link have said, with the instant at which each statement ends, and what follows
from it is read back through a view at an instant. SHA-1 is a parameter: nothing depends on the
digest but the addresses it forms. The loop that draws an interface identifier is bounded by the
number of states of the generator; that it always finds one in time is proved, not assumed.
-/

namespace Netd.Model.Ndp

/-- Initial solicitation interval (RFC 4861 §10). -/
def solicitInterval : ℕ := Duration.fromSecs 4

/-- Solicitations at that interval before backing off. -/
def solicitsBeforeBackoff : ℕ := 3

/-- Backoff ceiling while no router answers (RFC 7559 §2). -/
def maxSolicitInterval : ℕ := Duration.fromSecs 3600

/-- RFC 4862 §5.5.3(e): the floor an unauthenticated advertisement cannot go below. -/
def twoHours : ℕ := Duration.fromSecs 7200

/-- RFC 8981 defaults for temporary addresses. -/
def tempPreferred : ℕ := Duration.fromSecs 86400

def tempValid : ℕ := Duration.fromSecs 172800

/-- Live temporary addresses per prefix. -/
def maxTemps : ℕ := 4

structure Config where
  interface : String
  secret : Bytes
  temporary : Bool
  mac : Option Mac
  seed : U64
deriving DecidableEq, Repr

/-- What the caller must do. -/
inductive Action where
  | solicit (body : Bytes)
  | changed
deriving DecidableEq, Repr

/-- One address the interface should carry. -/
structure DesiredAddress where
  address : Ipv6Addr
  prefixLength : U8
  deprecated : Bool
  onLink : Bool
deriving DecidableEq, Repr

namespace DesiredAddress

/-- The fields in the order of the declaration, as the derived comparison takes them. -/
def sortKey (desired : DesiredAddress) : Ipv6Addr ×ₗ U8 ×ₗ Bool ×ₗ Bool :=
  toLex (desired.address, toLex (desired.prefixLength, toLex (desired.deprecated, desired.onLink)))

theorem sortKey_injective : Function.Injective sortKey := by
  rintro ⟨_, _, _, _⟩ ⟨_, _, _, _⟩ same
  simp only [sortKey, EmbeddingLike.apply_eq_iff_eq, Prod.mk.injEq] at same
  obtain ⟨rfl, rfl, rfl, rfl⟩ := same
  rfl

instance : LinearOrder DesiredAddress := LinearOrder.lift' sortKey sortKey_injective

end DesiredAddress

structure Temp where
  address : Ipv6Addr
  preferredUntil : ℕ
  validUntil : ℕ
deriving DecidableEq, Repr

/-- A prefix addresses are formed from; `none` is forever. -/
structure Prefix where
  onLink : Bool
  validUntil : Option ℕ
  preferredUntil : Option ℕ
  stable : Ipv6Addr
  temps : List Temp
deriving DecidableEq, Repr

/-- Everything the caller can observe, in one comparable value. -/
structure View where
  addresses : List DesiredAddress
  router : Option Ipv6Addr
  dns : List Ipv6Addr
  search : List String
  mtu : Option U32
  dhcp6 : Bool
deriving DecidableEq, Repr

def View.default : View where
  addresses := []
  router := none
  dns := []
  search := []
  mtu := none
  dhcp6 := false

structure Engine where
  config : Config
  rng : U64
  solicitAt : Option ℕ
  solicitInterval : ℕ
  solicits : ℕ
  routers : SortedMap Ipv6Addr ℕ
  prefixes : SortedMap (Ipv6Addr ×ₗ U8) Prefix
  rdnss : SortedMap Ipv6Addr (Option ℕ)
  dnssl : SortedMap String (Option ℕ)
  mtu : Option U32
  dhcp6Wanted : Bool
  lastView : View
  expiredAt : Option ℕ

/-! ## Lifetimes and interface identifiers -/

/-- The end of a lifetime in seconds; all ones is forever. -/
def «until» (now : ℕ) (lifetimeSeconds : U32) : Option ℕ :=
  if lifetimeSeconds = BitVec.allOnes 32 then none
  else some (now + Duration.fromSecs lifetimeSeconds.toNat)

/-- The first eight octets of the prefix, then the interface identifier. -/
def join (prefixAddr : Ipv6Addr) (iid : U64) : Ipv6Addr := prefixAddr.extractLsb' 64 64 ++ iid

/-- RFC 5453: interface identifiers that must not be autoconfigured. -/
def reservedIid (iid : U64) : Bool :=
  iid == 0 || iid.extractLsb' 32 32 == 0x02005eff#32 ||
    (iid.extractLsb' 8 56 == 0xfdffffffffffff#56 && decide (0x80#8 ≤ iid.extractLsb' 0 8))

/-- §5.5.3(e): an advertisement may extend the valid lifetime freely but may not cut what remains
below two hours. -/
def nextValidUntil (now : ℕ) (validUntil : Option ℕ) (valid : U32) : Option ℕ :=
  let received := Duration.fromSecs valid.toNat
  match validUntil.map (· - now) with
  | some remaining =>
    if twoHours < received ∨ remaining < received then «until» now valid
    else if remaining ≤ twoHours then some (now + remaining)
    else some (now + twoHours)
  | none => if twoHours < received then «until» now valid else some (now + twoHours)

/-- xorshift64: the next number, which is also the next generator state. -/
def nextRandom (rng : U64) : U64 :=
  let x := rng ^^^ (rng <<< 13)
  let x := x ^^^ (x >>> 7)
  x ^^^ (x <<< 17)

/-- An interface identifier from two numbers, with the generator state behind them. -/
def drawIid (rng : U64) : U64 × U64 :=
  let first := nextRandom rng
  let second := nextRandom first
  (first.setWidth 32 ++ second.setWidth 32, second)

/-- Draw until an identifier is acceptable, at most `fuel` times more than once. -/
def acceptedIid (acceptable : U64 → Bool) : ℕ → U64 → U64 × U64
  | 0, rng => drawIid rng
  | fuel + 1, rng =>
    if acceptable (drawIid rng).1 then drawIid rng else acceptedIid acceptable fuel (drawIid rng).2

/-- As many states as a 64-bit generator can pass through. -/
def generatorStates : ℕ := 2 ^ 64

/-- The address is already used in the prefix. -/
def Prefix.taken (p : Prefix) (address : Ipv6Addr) : Bool :=
  address == p.stable || p.temps.any fun temp => temp.address == address

/-- The instant after `cap`, or the limit if that is sooner. -/
def clamp (now cap : ℕ) : Option ℕ → ℕ
  | some limit => min (now + cap) limit
  | none => now + cap

/-- A new temporary address, with the generator state behind it. -/
def newTemp (rng : U64) (now : ℕ) (prefixAddr : Ipv6Addr) (p : Prefix) : Temp × U64 :=
  let drawn := acceptedIid (fun iid => !reservedIid iid && !p.taken (join prefixAddr iid)) generatorStates rng
  let rng := nextRandom drawn.2
  -- Desynchronise regeneration across machines (RFC 8981 §3.8).
  let desync := Duration.fromSecs (rng.toNat % 600)
  ({ address := join prefixAddr drawn.1
     preferredUntil := clamp now (tempPreferred - desync) p.preferredUntil
     validUntil := clamp now tempValid p.validUntil }, rng)

/-- ±10%, so a rack of machines does not solicit in step. -/
def jitter (rng : U64) (interval : ℕ) : ℕ × U64 :=
  let millis := Duration.asMillis interval
  let rng := nextRandom rng
  (Duration.fromMillis (millis - millis / 10 + rng.toNat % (millis / 5 + 1)), rng)

/-- The text every stable-privacy digest starts with. -/
def stableLabel : String := "peios-ndp-stable-iid|"

section Digest

variable (sha1 : Bytes → BitVec 160)

/-- The identifier one digest gives: its first eight octets. -/
def stableIid (config : Config) (prefixAddr : Ipv6Addr) (counter : ℕ) : U64 :=
  (sha1 (asBytes stableLabel ++ config.secret ++ prefixAddr.octets.take 8 ++ asBytes config.interface ++
    [BitVec.ofNat 8 counter])).extractLsb' 96 64

/-- RFC 7217: a keyed digest of prefix, interface identity and a duplication counter. -/
def stableAddress (config : Config) (prefixAddr : Ipv6Addr) : Ipv6Addr :=
  match (List.range 8).find? fun counter => !reservedIid (stableIid sha1 config prefixAddr counter) with
  | some counter => join prefixAddr (stableIid sha1 config prefixAddr counter)
  | none => join prefixAddr 1

end Digest

namespace Engine

def new (config : Config) : Engine where
  config := config
  rng := config.seed ||| 1
  solicitAt := none
  solicitInterval := Ndp.solicitInterval
  solicits := 0
  routers := .empty
  prefixes := .empty
  rdnss := .empty
  dnssl := .empty
  mtu := none
  dhcp6Wanted := false
  lastView := .default
  expiredAt := none

/-! ## The view -/

/-- A temporary address is listed until it ends or its prefix does. -/
def tempListed (now : ℕ) (p : Prefix) (temp : Temp) : Bool :=
  match p.validUntil with
  | some ends => decide (now < min temp.validUntil ends)
  | none => decide (now < temp.validUntil)

/-- The addresses of one prefix, the stable one first. -/
def prefixAddresses (now : ℕ) (length : U8) (p : Prefix) : List DesiredAddress :=
  if p.validUntil.any fun ends => decide (ends ≤ now) then []
  else
    let prefixDeprecated := p.preferredUntil.any fun ends => decide (ends ≤ now)
    { address := p.stable
      prefixLength := length
      deprecated := prefixDeprecated
      onLink := p.onLink } ::
    (p.temps.filter (tempListed now p)).map fun temp =>
      { address := temp.address
        prefixLength := length
        deprecated := prefixDeprecated || decide (temp.preferredUntil ≤ now)
        onLink := p.onLink }

/-- The default router to use: the lowest live link-local. -/
def defaultRouter (e : Engine) (now : ℕ) : Option Ipv6Addr :=
  (e.routers.entries.find? fun entry => decide (now < entry.2)).map Prod.fst

/-- The keys whose lifetime has not ended. -/
def live {κ : Type} [LinearOrder κ] (now : ℕ) (map : SortedMap κ (Option ℕ)) : List κ :=
  (map.entries.filter fun entry => entry.2.all fun ends => decide (now < ends)).map Prod.fst

def dnsServers (e : Engine) (now : ℕ) : List Ipv6Addr := live now e.rdnss

def searchDomains (e : Engine) (now : ℕ) : List String := live now e.dnssl

def wantsDhcp6 (e : Engine) : Bool := e.dhcp6Wanted

def view (e : Engine) (now : ℕ) : View where
  addresses := (e.prefixes.entries.flatMap fun entry =>
    prefixAddresses now (ofLex entry.1).2 entry.2).insertionSort (· ≤ ·)
  router := e.defaultRouter now
  dns := e.dnsServers now
  search := e.searchDomains now
  mtu := e.mtu
  dhcp6 := e.dhcp6Wanted

/-- The addresses the interface should carry right now. -/
def addresses (e : Engine) (now : ℕ) : List DesiredAddress := (e.view now).addresses

/-! ## Timers -/

/-- Only a preferred lifetime that did not end by the last expiry is still to come. -/
def pending (e : Engine) (ends : Option ℕ) : Option ℕ :=
  ends.filter fun moment => e.expiredAt.all fun expired => decide (expired < moment)

/-- Every instant that is considered for the next deadline. -/
def considered (e : Engine) : List (Option ℕ) :=
  e.routers.entries.map (fun entry => some entry.2) ++
    (e.prefixes.entries.flatMap fun entry =>
      entry.2.validUntil :: e.pending entry.2.preferredUntil ::
        entry.2.temps.flatMap fun temp => [e.pending (some temp.preferredUntil), some temp.validUntil]) ++
    e.rdnss.entries.map Prod.snd ++ e.dnssl.entries.map Prod.snd

/-- When `tick` next wants calling. -/
def nextDeadline (e : Engine) : Option ℕ := e.considered.foldl Deadline.sooner e.solicitAt

/-- A temporary address is wanted: the prefix is still preferred and its newest is not. -/
def wantsTemp (config : Config) (now : ℕ) (p : Prefix) : Bool :=
  config.temporary && (p.preferredUntil.all fun ends => decide (now < ends)) &&
    !(p.temps.getLast?.any fun temp => decide (now < temp.preferredUntil))

/-- Add a temporary address to a stored prefix. -/
def regenerate (now : ℕ) (e : Engine) (key : Ipv6Addr ×ₗ U8) : Engine :=
  match e.prefixes.lookup key with
  | some p =>
    let temp := newTemp e.rng now (ofLex key).1 p
    { e with
      rng := temp.2
      prefixes := e.prefixes.modify key fun p => { p with temps := p.temps ++ [temp.1] } }
  | none => e

/-- Drop what has ended; the routers all gone, go back to soliciting. -/
def dropEnded (e : Engine) (now : ℕ) : Engine :=
  let e := { e with
    expiredAt := some now
    routers := e.routers.filter fun _ ends => decide (now < ends) }
  let e := if e.routers.isEmpty && e.solicitAt.isNone then
      { e with solicits := 0, solicitInterval := Ndp.solicitInterval, solicitAt := some now }
    else e
  { e with
    rdnss := e.rdnss.filter fun _ ends => ends.all fun moment => decide (now < moment)
    dnssl := e.dnssl.filter fun _ ends => ends.all fun moment => decide (now < moment)
    prefixes := (e.prefixes.filter fun _ p => p.validUntil.all fun moment => decide (now < moment)).mapVal
      fun _ p => { p with temps := p.temps.filter fun temp => decide (now < temp.validUntil) } }

/-- The prefixes that a temporary address is added to. -/
def regenerated (e : Engine) (now : ℕ) : List (Ipv6Addr ×ₗ U8) :=
  (e.prefixes.entries.filter fun entry => wantsTemp e.config now entry.2).map Prod.fst

/-- The newest temporary addresses, `maxTemps` at most. -/
def newestTemps (temps : List Temp) : List Temp := temps.drop (temps.length - maxTemps)

def expire (e : Engine) (now : ℕ) : Engine :=
  let e := e.dropEnded now
  let e := (e.regenerated now).foldl (regenerate now) e
  { e with prefixes := e.prefixes.mapVal fun _ p => { p with temps := newestTemps p.temps } }

def emitIfChanged (e : Engine) (now : ℕ) (actions : List Action) : Engine × List Action :=
  if e.view now ≠ e.lastView then ({ e with lastView := e.view now }, actions ++ [.changed])
  else (e, actions)

/-- The interval after so many solicitations. -/
def nextInterval (solicits interval : ℕ) : ℕ :=
  if solicitsBeforeBackoff ≤ solicits then min (interval * 2) maxSolicitInterval else interval

/-- Solicit if that is due. -/
def solicitDue (e : Engine) (now : ℕ) : Engine × List Action :=
  match e.solicitAt with
  | some due =>
    if due ≤ now then
      let solicits := e.solicits + 1
      let interval := nextInterval solicits e.solicitInterval
      let delay := jitter e.rng interval
      ({ e with
          solicits := solicits
          solicitInterval := interval
          rng := delay.2
          solicitAt := some (now + delay.1) }, [.solicit (Ndp.solicit e.config.mac)])
    else (e, [])
  | none => (e, [])

/-- Timers: solicitation, and every lifetime. -/
def tick (e : Engine) (now : ℕ) : Engine × List Action :=
  let solicited := (e.expire now).solicitDue now
  solicited.1.emitIfChanged now solicited.2

/-- Begin soliciting. -/
def start (e : Engine) (now : ℕ) : Engine × List Action :=
  tick { e with solicits := 0, solicitInterval := Ndp.solicitInterval, solicitAt := some now } now

/-! ## Advertisements -/

/-- A statement with a lifetime: zero takes it back. -/
def stated {κ : Type} [LinearOrder κ] (now : ℕ) (lifetime : U32) (map : SortedMap κ (Option ℕ)) (key : κ) :
    SortedMap κ (Option ℕ) :=
  if lifetime = 0 then map.erase key else map.insert key («until» now lifetime)

/-- Only autonomous /64s form addresses, and a preferred lifetime beyond the valid one is nonsense. -/
def usable (info : PrefixInfo) : Bool :=
  info.autonomous && info.length == 64 && decide (info.preferred ≤ info.valid)

def infoKey (info : PrefixInfo) : Ipv6Addr ×ₗ U8 := toLex (info.prefixAddr, info.length)

/-- What the routers said about themselves: their lifetime, their flags and the MTU. -/
def receiveRouter (e : Engine) (now : ℕ) (source : Ipv6Addr) (ra : RouterAdvert) : Engine :=
  let e := if 0 < ra.routerLifetime then
      { e with
        routers := e.routers.insert source (now + Duration.fromSecs ra.routerLifetime.toNat)
        -- A router answered; stop soliciting until they are all gone.
        solicitAt := none }
    else { e with routers := e.routers.erase source }
  { e with
    dhcp6Wanted := e.dhcp6Wanted || ra.managed || ra.otherConfig
    mtu := ra.mtu.or e.mtu }

section Receive

variable (sha1 : Bytes → BitVec 160)

def receivePrefix (now : ℕ) (e : Engine) (info : PrefixInfo) : Engine :=
  if usable info then
    match e.prefixes.lookup (infoKey info) with
    | some _ =>
      { e with
        prefixes := e.prefixes.modify (infoKey info) fun p =>
          { p with
            onLink := info.onLink
            preferredUntil := «until» now info.preferred
            validUntil := nextValidUntil now p.validUntil info.valid } }
    | none =>
      if 0 < info.valid then
        let p : Prefix :=
          { onLink := info.onLink
            validUntil := «until» now info.valid
            preferredUntil := «until» now info.preferred
            stable := stableAddress sha1 e.config info.prefixAddr
            temps := [] }
        if e.config.temporary ∧ 0 < info.preferred then
          let temp := newTemp e.rng now info.prefixAddr p
          { e with rng := temp.2, prefixes := e.prefixes.insert (infoKey info) { p with temps := [temp.1] } }
        else { e with prefixes := e.prefixes.insert (infoKey info) p }
      else e
  else e

/-- Everything an advertisement says, before lifetimes are applied. -/
def advertised (e : Engine) (now : ℕ) (source : Ipv6Addr) (ra : RouterAdvert) : Engine :=
  let e := ra.prefixes.foldl (receivePrefix sha1 now) (e.receiveRouter now source ra)
  { e with
    rdnss := ra.rdnss.foldl (fun map r => r.servers.foldl (stated now r.lifetime) map) e.rdnss
    dnssl := ra.dnssl.foldl (fun map d => d.domains.foldl (stated now d.lifetime) map) e.dnssl }

/-- Feed one advertisement, already known to have arrived from a link-local source. -/
def receive (e : Engine) (now : ℕ) (source : Ipv6Addr) (body : Bytes) : Engine × List Action :=
  match RouterAdvert.decode body with
  | none => (e, [])
  | some ra => ((e.advertised sha1 now source ra).expire now).emitIfChanged now []

/-- The operations a caller has. -/
inductive Op where
  | start (now : ℕ)
  | tick (now : ℕ)
  | receive (now : ℕ) (source : Ipv6Addr) (body : Bytes)
deriving DecidableEq, Repr

/-- The instant of an operation. -/
def Op.time : Op → ℕ
  | start now | tick now | receive now _ _ => now

def machine : Transducer Engine Op (List Action) where
  step e
    | .start now => e.start now
    | .tick now => e.tick now
    | .receive now source body => e.receive sha1 now source body

end Receive

end Engine

end Netd.Model.Ndp
