import Netd.Model.Netlink
import Netd.Model.Wire

/-! # What the kernel reports, and how netd keeps up with it

`link_from_message`, `address_from_message`, `route_from_message` and `route_message` of
`netd/src/netlink.rs`, the dump that is put together with them, and the loop that consumes multicast
events. The attributes of a message are those of another package; the ones that netd does not look at are
all `other`. Whether an interface is wireless is asked of the file system and is a parameter.
-/

namespace Netd.Model.Netlink

/-! ## Messages -/

inductive LinkAttribute where
  | ifName (name : String)
  | address (octets : Bytes)
  | mtu (mtu : U32)
  | other
deriving DecidableEq, Repr

structure LinkMessage where
  index : U32
  linkLayerType : U16
  up : Bool
  lowerUp : Bool
  loopback : Bool
  attributes : List LinkAttribute
deriving DecidableEq, Repr

structure AddressFlags where
  deprecated : Bool
  noPrefixRoute : Bool
  tentative : Bool
deriving DecidableEq, Repr

def AddressFlags.empty : AddressFlags := ⟨false, false, false⟩

inductive ReportedAttribute where
  | localAddress (address : IpAddr)
  | address (address : IpAddr)
  | flags (flags : AddressFlags)
  | other
deriving DecidableEq, Repr

/-- An address as the kernel reports it; the header has eight flags of its own. -/
structure AddressReport where
  index : U32
  prefixLength : U8
  headerTentative : Bool
  attributes : List ReportedAttribute
deriving DecidableEq, Repr

inductive RouteAttribute where
  | destination (address : IpAddr)
  | gateway (address : IpAddr)
  | oif (index : U32)
  | priority (metric : U32)
  | other
deriving DecidableEq, Repr

/-- A route as it is asked for and reported; a family that is neither IPv4 nor IPv6 is `none`. -/
structure RouteMessage where
  family : Option AddressFamily
  prefixLength : U8
  table : U8
  protocol : U8
  scope : U8
  kind : U8
  attributes : List RouteAttribute
deriving DecidableEq, Repr

/-- `LinkLayerType::Ether`. -/
def etherType : U16 := 1

def rtTableMain : U8 := 254

/-- `RouteType::Unicast`. -/
def unicast : U8 := 1

def scopeUniverse : U8 := 0

def scopeLink : U8 := 253

/-- What a loop that overwrites a variable leaves in it. -/
def lastOf {α β : Type*} (select : α → Option β) (items : List α) : Option β :=
  items.foldl (fun found item => (select item).or found) none

section Decoding

variable (isWireless : String → Bool)

def linkFromMessage (l : LinkMessage) : Link :=
  let name := (lastOf (fun
    | .ifName n => some n
    | _ => none) l.attributes).getD ""
  let mac := lastOf (fun
    | .address a => if a.length = 6 then some (fromBeBytes a) else none
    | _ => none) l.attributes
  let mtu := (lastOf (fun
    | .mtu m => some m
    | _ => none) l.attributes).getD 0
  { index := l.index
    name
    mac
    up := l.up
    carrier := l.lowerUp
    loopback := l.loopback
    mtu
    linkType := l.linkLayerType
    kind :=
      if l.loopback then .loopback
      else if l.linkLayerType = etherType then if isWireless name then .wireless else .ether
      else .other }

/-- IPv4 has its own address in `IFA_LOCAL` and that of the peer in `IFA_ADDRESS`; IPv6 has only the latter. -/
def addressFromMessage (a : AddressReport) : Option Address :=
  let own := lastOf (fun
    | .localAddress ip => some ip
    | _ => none) a.attributes
  let address := lastOf (fun
    | .address ip => some ip
    | _ => none) a.attributes
  let flags := (lastOf (fun
    | .flags f => some f
    | _ => none) a.attributes).getD .empty
  (own.or address).map fun ip =>
    { index := a.index
      address :=
        match ip with
        | .v6 _ => address.getD ip
        | .v4 _ => ip
      prefixLength := a.prefixLength
      deprecated := flags.deprecated
      noPrefixRoute := flags.noPrefixRoute
      tentative := flags.tentative || a.headerTentative }

def routeFromMessage (r : RouteMessage) : Option Route :=
  if r.table ≠ rtTableMain ∨ r.kind ≠ unicast then none
  else
    r.family.bind fun family =>
      let destination := lastOf (fun
        | .destination d => some d
        | _ => none) r.attributes
      let gateway := lastOf (fun
        | .gateway g => some g
        | _ => none) r.attributes
      let oif := lastOf (fun
        | .oif i => some i
        | _ => none) r.attributes
      let metric := lastOf (fun
        | .priority p => some p
        | _ => none) r.attributes
      oif.map fun index =>
        { index
          destination := destination.getD
            (match family with
            | .inet => .v4 Ipv4Addr.unspecified
            | .inet6 => .v6 Ipv6Addr.unspecified)
          prefixLength := r.prefixLength
          gateway
          metric := metric.getD 0
          protocol := r.protocol }

def routeMessage (r : Route) : RouteMessage where
  family := some
    (match r.destination with
    | .v4 _ => .inet
    | .v6 _ => .inet6)
  prefixLength := r.prefixLength
  table := rtTableMain
  protocol := r.protocol
  scope := if r.gateway.isSome then scopeUniverse else scopeLink
  kind := unicast
  attributes :=
    (if 0 < r.prefixLength then [.destination r.destination] else []) ++
      (r.gateway.map RouteAttribute.gateway).toList ++ [.oif r.index] ++
        if 0 < r.metric then [.priority r.metric] else []

/-! ## Dumps -/

/-- The tables that are asked for, one request each. -/
inductive Table where
  | links
  | addresses (family : AddressFamily)
  | routes (family : AddressFamily)
deriving DecidableEq, Repr

abbrev Table.Message : Table → Type
  | links => LinkMessage
  | addresses _ => AddressReport
  | routes _ => RouteMessage

def dumpLinks (out : Observed) (messages : List LinkMessage) : Observed :=
  messages.foldl (fun out m =>
    let link := linkFromMessage isWireless m
    { out with links := out.links.insert link.index link }) out

def dumpAddresses (out : Observed) (messages : List AddressReport) : Observed :=
  { out with addresses := out.addresses ++ messages.filterMap addressFromMessage }

def dumpRoutes (out : Observed) (messages : List RouteMessage) : Observed :=
  { out with routes := out.routes ++ messages.filterMap routeFromMessage }

/-- What a finished request for a table adds. -/
def dumpTable (out : Observed) : (table : Table) → List table.Message → Observed
  | .links, messages => dumpLinks isWireless out messages
  | .addresses _, messages => dumpAddresses out messages
  | .routes _, messages => dumpRoutes out messages

def Observed.default : Observed := ⟨.empty, [], []⟩

/-- The requests of a dump, in their order. -/
def dumpOrder : List Table := [.links, .addresses .inet, .routes .inet, .addresses .inet6, .routes .inet6]

/-- A dump, by how each of its requests ended; the first failure ends it. -/
def dump {ε : Type*} (answers : (table : Table) → Except ε (List table.Message)) : Except ε Observed :=
  dumpOrder.foldlM (fun out table => do
    let messages ← answers table
    return dumpTable isWireless out table messages) Observed.default

end Decoding

/-! ## Events -/

/-- The multicast group that announces changes of a table. -/
def Table.group : Table → ℕ
  | links => 1
  | addresses .inet => 5
  | routes .inet => 7
  | addresses .inet6 => 9
  | routes .inet6 => 11

/-- The groups that `LinuxRtnl::open` joins. -/
def memberships : List ℕ := [1, 5, 7, 9, 11]

/-- One round of the loop of `drain_events`: whether there were any events, and whether the loop is left. -/
def drainRound (any : Bool) : Except Wire.ErrorKind ℕ → Bool × Bool
  | .ok 0 => (any, true)
  | .ok _ => (true, false)
  | .error .wouldBlock => (any, true)
  | .error .interrupted => (any, false)
  | .error _ => (true, true)

end Netd.Model.Netlink
