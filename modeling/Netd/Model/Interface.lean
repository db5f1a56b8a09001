import Netd.Model.Dhcp4.Client
import Netd.Model.Ndp.Engine
import Netd.Model.Dhcp6
import Netd.Model.Profile
import Netd.Model.Reconcile

/-! # One interface and its clients

`Interface` of `netd/src/main.rs` with `netd/src/restart.rs`: what an interface should look like
and contribute to name resolution, read from its clients at an instant, and how the clients'
actions are carried out. Sending on a socket leaves no trace in the interface and is left out, as
are the names under which the registry and the log know it.
-/

namespace Netd.Model

open Reconcile (Desired DesiredV6)

/-! ## Kernel state kept over a restart -/

/-- Existing kernel state, kept while the first INIT-REBOOT is being answered. -/
structure Restart where
  addresses : List (Ipv4Addr × U8)
  routes : List Route
deriving DecidableEq, Repr

namespace Restart

def capture (observed : Observed) (index : U32) (requested : Option Ipv4Addr) : Option Restart :=
  requested.bind fun requested =>
    let addresses := ((observed.addressesOf index).filter fun a => a.address = .v4 requested).map
      fun a => (requested, a.prefixLength)
    if addresses.isEmpty then none
    else some
      { addresses
        routes := (observed.routesOf index).filter fun r => r.isV4 && r.protocol = rtprotNetd }

/-- One route kept; an explicit gateway takes precedence over a default route. -/
def preserveRoute (metric : U32) (desired : Desired) (route : Route) : Desired :=
  match route.destination, route.gateway with
  | .v4 destination, some (.v4 gateway) =>
    if route.prefixLength = 0 then
      { desired with defaultRoute := desired.defaultRoute.or (some (gateway, metric)) }
    else
      { desired with
        routes := desired.routes ++ [(destination, route.prefixLength, gateway, metric)] }
  | _, _ => desired

def preserve (restart : Restart) (desired : Desired) (offeredRoutes : Bool) (metric : U32) : Desired :=
  let desired := { desired with addresses := desired.addresses ++ restart.addresses }
  if offeredRoutes then restart.routes.foldl (preserveRoute metric) desired else desired

end Restart

/-- What an interface contributes to name resolution, before routing. -/
structure DnsFacts where
  servers : List IpAddr
  search : List String
  ntp : List Ipv4Addr
deriving DecidableEq, Repr

/-- One managed (or at least seen) interface. -/
structure Interface where
  ifid : String
  link : Link
  outcome : Outcome
  rejudge : Bool
  discoveryUnanswered : Bool
  dhcp : Option Dhcp4.Client
  lease : Option Dhcp4.Lease
  restart : Option Restart
  firstDhcpStart : Bool
  linkLocal : Option Ipv4Addr
  ndp : Option Ndp.Engine
  dhcp6 : Option Dhcp6.Client

namespace Interface

/-- An interface as it is first seen. -/
def new (ifid : String) (link : Link) : Interface where
  ifid
  link
  outcome := .ignore
  rejudge := false
  discoveryUnanswered := false
  dhcp := none
  lease := none
  restart := none
  firstDhcpStart := true
  linkLocal := none
  ndp := none
  dhcp6 := none

/-- Joined: netd stands on this interface. Loopback is never judged. -/
def managed (i : Interface) : Bool := i.outcome.profile.isSome && !i.link.loopback

def profile (i : Interface) : Option Profile := if i.link.loopback then none else i.outcome.profile

def metric (i : Interface) : U32 :=
  (i.profile.bind fun p => p.address.routeMetric).getD
    (match i.link.kind with
    | .wireless => 600
    | _ => 100)

/-! ## What the interface should look like -/

/-- The addresses the profile names itself. -/
def withStatics (statics : List StaticAddress) (d : Desired) : Desired :=
  statics.foldl (fun d s =>
    match s.address with
    | .v4 a => { d with addresses := d.addresses ++ [(a, s.prefixLength)] }
    | .v6 a => { d with addresses6 := d.addresses6 ++ [⟨a, s.prefixLength, false, false⟩] }) d

/-- What a lease adds; its routes are taken where the profile says so. -/
def withLease (lease : Option Dhcp4.Lease) (routeOffered : Bool) (metric : U32) (d : Desired) : Desired :=
  match lease with
  | none => d
  | some lease =>
    { d with
      addresses := d.addresses ++ [(lease.address, lease.prefixLength)]
      broadcast := lease.broadcast
      routes :=
        if routeOffered then
          d.routes ++ (lease.staticRoutes.filter fun r => 0 < r.prefixLength).map
            fun r => (r.destination, r.prefixLength, r.gateway, metric)
        else d.routes }

/-- A self-assigned address, while there is no other. -/
def withLinkLocal (linkLocal : Option Ipv4Addr) (alone : Bool) (d : Desired) : Desired :=
  match linkLocal with
  | none => d
  | some ll => if alone then { d with addresses := d.addresses ++ [(ll, 16)] } else d

def withRestart (restart : Option Restart) (routeOffered : Bool) (metric : U32) (d : Desired) : Desired :=
  match restart with
  | none => d
  | some restart => restart.preserve d routeOffered metric

/-- An address the engine asks for. -/
def slaacAddress (a : Ndp.DesiredAddress) : DesiredV6 where
  address := a.address
  prefixLength := a.prefixLength
  deprecated := a.deprecated
  noPrefixRoute := !a.onLink

/-- What the routers of the link say at an instant, to the desired state. -/
structure Routers where
  mtu : Option U32
  addresses : List Ndp.DesiredAddress
  router : Option Ipv6Addr

/-- The profile's own packet size limit, or else the offered one. -/
def mtuOf (address : AddressConfig) (lease : Option Dhcp4.Lease) (raMtu : Option U32) : Option U32 :=
  address.mtu.or
    (if address.mtuOffered then
      ((lease.bind fun l => l.mtu).map fun mtu => mtu.setWidth 32).or raMtu
    else none)

def gatewayOf (address : AddressConfig) (lease : Option Dhcp4.Lease) : Option Ipv4Addr :=
  address.gateway.or (if address.routeOffered then lease.bind Dhcp4.Lease.gateway else none)

def gateway6Of (address : AddressConfig) (router : Option Ipv6Addr) : Option Ipv6Addr :=
  address.gateway6.or (if address.routeOffered then router else none)

/-- The state of an interface that joins a profile. -/
def joined (i : Interface) (address : AddressConfig) (routers : Routers) : Desired :=
  let d : Desired :=
    { index := i.link.index
      up := true
      mtu := mtuOf address i.lease routers.mtu }
  let d := withStatics address.statics d
  let d := withLease i.lease address.routeOffered i.metric d
  let d := withLinkLocal i.linkLocal (i.lease.isNone && address.statics.isEmpty) d
  let d := { d with defaultRoute := (gatewayOf address i.lease).map fun g => (g, i.metric) }
  let d := withRestart i.restart address.routeOffered i.metric d
  { d with
    addresses6 := d.addresses6 ++ routers.addresses.map slaacAddress
    defaultRoute6 := (gateway6Of address routers.router).map fun g => (g, i.metric) }

/-- What the interface's engine knows of its routers. -/
def routers (i : Interface) (now : ℕ) : Routers where
  mtu := i.ndp.bind fun e => e.mtu
  addresses := (i.ndp.map fun e => e.addresses now).getD []
  router := i.ndp.bind fun e => e.defaultRouter now

def desired (i : Interface) (now : ℕ) : Option Desired :=
  if i.link.loopback then none
  else
    match i.outcome with
    | .ignore => none
    | .down => some { index := i.link.index }
    | .join p => some (i.joined p.address (i.routers now))

/-! ## What it contributes to name resolution -/

/-- The servers and domains of a lease; a search list takes the place of the domain. -/
def leaseDns (lease : Option Dhcp4.Lease) : List IpAddr × List String :=
  match lease with
  | none => ([], [])
  | some l => (l.dns.map IpAddr.v4, if !l.search.isEmpty then l.search else l.domain.toList)

def engineDns (engine : Option Ndp.Engine) (now : ℕ) : List IpAddr × List String :=
  match engine with
  | none => ([], [])
  | some e => ((e.dnsServers now).map IpAddr.v6, e.searchDomains now)

def infoDns (info : Option Dhcp6.Info) : List IpAddr × List String :=
  match info with
  | none => ([], [])
  | some info => (info.dns.map IpAddr.v6, info.search)

/-- The servers and domains the network offered: the lease's, the routers', and DHCPv6's. -/
def offeredDns (i : Interface) (now : ℕ) : List IpAddr × List String :=
  let lease := leaseDns i.lease
  let routers := engineDns i.ndp now
  let info := infoDns (i.dhcp6.bind fun c => c.info)
  (lease.1 ++ routers.1 ++ info.1, lease.2 ++ routers.2 ++ info.2)

def dns (i : Interface) (now : ℕ) : DnsFacts :=
  let (servers, search) :=
    match i.profile with
    | some p =>
      let offered := if p.dns.offered then i.offeredDns now else ([], [])
      (p.dns.servers ++ offered.1, p.dns.domains ++ offered.2)
    | none => ([], [])
  { servers := servers.eraseDups
    search := search.eraseDups
    ntp := (i.lease.map fun l => l.ntp).getD [] }

/-! ## Carrying out the clients' actions -/

/-- A stable pseudo-random link-local address seeded by the MAC (RFC 3927 §2.1). -/
def linkLocalFor (mac : Option Mac) (index : U32) : Ipv4Addr :=
  let seed : U32 := (mac.map fun m => m.setWidth 32).getD (index * 2654435761)
  let host : U32 := 256 + seed % (65024 - 256)
  0xa9fe#16 ++ host.setWidth 16

def rememberRestart (i : Interface) (observed : Observed) (requested : Option Ipv4Addr) : Interface :=
  { i with
    firstDhcpStart := false
    restart := if i.firstDhcpStart then Restart.capture observed i.link.index requested else none }

/-- Provisional kernel state ends with the client's INIT-REBOOT, however that ended. -/
def finishRestart (i : Interface) : Interface × Bool :=
  if i.dhcp.map (fun c => c.state) ≠ some .rebooting then
    ({ i with restart := none }, i.restart.isSome)
  else (i, false)

def performAction : Interface × Bool → Dhcp4.Action → Interface × Bool
  | (i, changed), .send _ _ => (i, changed)
  | (i, _), .bound lease =>
    ({ i with
        lease := some lease
        linkLocal := none
        discoveryUnanswered := false
        rejudge := true }, true)
  | (i, changed), .noOffer =>
    let wantsLl := (i.profile.map fun p => p.address.linkLocal).getD false
    let i := { i with discoveryUnanswered := true }
    if wantsLl && i.linkLocal.isNone then
      ({ i with linkLocal := some (linkLocalFor i.link.mac i.link.index) }, true)
    else (i, changed)
  | (i, changed), .lost =>
    let keep := (i.profile.map fun p => decide (p.address.onExpiry = .keep)).getD false
    if keep then (i, changed) else ({ i with lease := none }, true)

/-- Carry out the DHCPv4 client's actions; whether the network changed. -/
def perform (i : Interface) (actions : List Dhcp4.Action) : Interface × Bool :=
  actions.foldl performAction i.finishRestart

/-- Carry out the engine's actions; whether the network changed. -/
def performNdp (actions : List Ndp.Action) : Bool := actions.contains .changed

/-- Carry out the DHCPv6 client's actions; whether DNS changed. -/
def performDhcp6 (actions : List Dhcp6.Action) : Bool := actions.contains .changed

end Interface

end Netd.Model
