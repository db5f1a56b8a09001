import Netd.Machine.Transducer
import Netd.Model.Core.Display
import Netd.Model.Interface
import Netd.Model.Wire

/-! # Snapshots for subscribers

`Netd::snapshot`, `Netd::publish` and the `Subscribe` branch of `Netd::handle_control` in
`netd/src/main.rs`. A subscriber is a connection; the kernel takes a frame whole or the connection is
dropped. Everything else the daemon does shows here only in the interfaces, the kernel's state and
the name that a snapshot is made of; what goes to the registry for each interface is left out.
-/

set_option linter.dupNamespace false

namespace Netd.Model

open Wire

/-- `127.0.0.0/8`. -/
def Ipv4Addr.isLoopback (address : Ipv4Addr) : Bool := address.extractLsb' 24 8 == 127#8

/-- A usable unicast address for readiness purposes; an IPv6 link-local is none. -/
def Address.usable (a : Address) : Bool :=
  match a.address with
  | .v4 address => !Ipv4Addr.isLoopback address
  | .v6 address => !Ipv6Addr.isLoopback address && !isV6LinkLocal address

def Route.isDefault (r : Route) : Bool := r.prefixLength == 0

/-- An address with the length of its prefix. -/
def Address.display (a : Address) : String := a.address.display ++ "/" ++ toString a.prefixLength.toNat

namespace Interface

def level (i : Interface) (observed : Observed) : Level :=
  if !(i.link.up && i.link.carrier) then .absent
  else if !(observed.addressesOf i.link.index).any Address.usable then .link
  else if (observed.routesOf i.link.index).any Route.isDefault then .routed
  else .addressed

/-- What an interface contributes to a snapshot. -/
def scope (i : Interface) (observed : Observed) (now : ℕ) : DnsScope :=
  let level := i.level observed
  let facts := i.dns now
  let dns := i.profile.map fun p => p.dns
  { ifid := i.ifid
    name := i.link.name
    servers := facts.servers.map IpAddr.display
    domains := facts.search
    ntp := facts.ntp.map Ipv4Addr.display
    addresses := (observed.addressesOf i.link.index).map Address.display
    defaultRoute := (dns.bind fun d => d.defaultRoute).getD (level = .routed)
    exclusive := (dns.map fun d => d.exclusive).getD false
    metric := i.metric
    level }

end Interface

def Level.max (first second : Level) : Level := if first.rank ≤ second.rank then second else first

/-- The part of the daemon that subscribers see. Subscribers are known by their connection. -/
structure Netd where
  observed : Observed
  interfaces : SortedMap U32 Interface
  hostnameSet : Option String
  subscribers : List ℕ
  lastSnapshot : Option Snapshot
  lastLevel : Option Level

/-- A frame offered to the kernel, and whether it was taken whole. -/
structure Write where
  connection : ℕ
  reply : Reply
  whole : Bool
deriving DecidableEq, Repr

namespace Netd

/-- The interfaces by metric, then by index. -/
def ordered (n : Netd) : List Interface :=
  ((n.interfaces.entries.map Prod.snd).filter Interface.managed).insertionSort fun first second =>
    first.metric < second.metric ∨ (first.metric = second.metric ∧ first.link.index ≤ second.link.index)

/-- Every managed interface with a link, in metric order. -/
def snapshot (n : Netd) (now : ℕ) : Snapshot where
  hostname := n.hostnameSet.getD ""
  scopes := (n.ordered.filter fun i => i.level n.observed ≠ .absent).map fun i => i.scope n.observed now

/-- The level of the machine, as `status` reports it. -/
def machineLevel (n : Netd) : Level :=
  (n.interfaces.entries.map Prod.snd).foldl
    (fun level i => if i.managed then Level.max level (i.level n.observed) else level) .absent

/-- The level, where it is news. -/
def publishLevel (n : Netd) : Netd × Option Level :=
  if n.lastLevel = some n.machineLevel then (n, none)
  else ({ n with lastLevel := some n.machineLevel }, some n.machineLevel)

/-- Send the snapshot to every subscriber if it changed. `takes` says of which connections the kernel
takes a whole frame; the others are dropped. -/
def publish (n : Netd) (now : ℕ) (takes : ℕ → Bool) : Netd × Option Level × List Write :=
  let (n, level) := n.publishLevel
  let snapshot := n.snapshot now
  if n.lastSnapshot = some snapshot then (n, level, [])
  else
    ({ n with
      lastSnapshot := some snapshot
      subscribers := n.subscribers.filter takes },
      level, n.subscribers.map fun connection => ⟨connection, .snapshot snapshot, takes connection⟩)

/-- A subscriber is served from the last snapshot that was published. -/
def subscribe (n : Netd) (connection now : ℕ) (nonblocking takes : Bool) : Netd × List Write :=
  let snapshot := n.lastSnapshot.getD (n.snapshot now)
  if nonblocking then
    (if takes then { n with subscribers := n.subscribers ++ [connection] } else n,
      [⟨connection, .snapshot snapshot, takes⟩])
  else (n, [])

/-- The daemon before the first pass. -/
def boot (observed : Observed) : Netd where
  observed
  interfaces := .empty
  hostnameSet := none
  subscribers := []
  lastSnapshot := none
  lastLevel := none

/-- What happens to the daemon, as far as subscribers can tell: anything to what a snapshot is made of;
a publish; a request to subscribe, each on a connection of its own. -/
inductive Event where
  | change (observed : Observed) (interfaces : SortedMap U32 Interface) (hostnameSet : Option String)
  | publish (now : ℕ) (takes : ℕ → Bool)
  | subscribe (now : ℕ) (nonblocking takes : Bool)

/-- The daemon, and how many connections have asked to subscribe. -/
structure Hub where
  netd : Netd
  accepted : ℕ

def Hub.step (h : Hub) : Event → Hub × List Write
  | .change observed interfaces hostnameSet =>
    ({ h with netd := { h.netd with observed, interfaces, hostnameSet } }, [])
  | .publish now takes =>
    let (netd, _, writes) := h.netd.publish now takes
    ({ h with netd }, writes)
  | .subscribe now nonblocking takes =>
    let (netd, writes) := h.netd.subscribe h.accepted now nonblocking takes
    (⟨netd, h.accepted + 1⟩, writes)

def Hub.machine : Transducer Hub Event (List Write) where
  step := Hub.step

end Netd

end Netd.Model
