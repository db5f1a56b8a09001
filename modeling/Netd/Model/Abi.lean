import Netd.Model.Core.Text

/-! # Layouts shared with C

`netd-abi/src/lib.rs`, as far as configuration, status, snapshots and profiles cross it. A pointer is null
or stands for what it refers to; a pointer to an array stands for everything that can be read from
there on, whatever count is passed with it. A count is a machine word.
-/

namespace Netd.Model.Abi

structure Bytes where
  data : Option (List U8)
  len : U64
deriving DecidableEq, Repr

structure Strings where
  data : Option (List Bytes)
  len : U64
deriving DecidableEq, Repr

structure OptionalU32 where
  present : U32
  value : U32
deriving DecidableEq, Repr

structure Lease where
  present : U32
  server : Bytes
  state : Bytes
  expiresIn : U64
  duration : U64
  renewAt : U64
  rebindAt : U64
deriving DecidableEq, Repr

structure Interface where
  ifid : Bytes
  name : Bytes
  mac : Bytes
  path : Bytes
  driver : Bytes
  verdict : Bytes
  rule : Bytes
  profile : Bytes
  network : Bytes
  networkName : Bytes
  networkTrust : Bytes
  warning : Bytes
  gateway : Bytes
  gateway6 : Bytes
  index : U32
  up : U32
  carrier : U32
  level : U32
  addresses : Strings
  dns : Strings
  search : Strings
  lease : Lease
deriving DecidableEq, Repr

structure Status where
  hostname : Bytes
  level : U32
  refusal : Bytes
  interfaces : Option (List Interface)
  interfaceCount : U64
deriving DecidableEq, Repr

structure DnsScope where
  ifid : Bytes
  name : Bytes
  servers : Strings
  domains : Strings
  ntp : Strings
  addresses : Strings
  defaultRoute : U32
  exclusive : U32
  metric : U32
  level : U32
deriving DecidableEq, Repr

structure Snapshot where
  hostname : Bytes
  scopes : Option (List DnsScope)
  scopeCount : U64
deriving DecidableEq, Repr

structure Profile where
  path : Bytes
  enabled : U32
  offered : U32
  ipv4 : U32
  ipv6 : U32
  linkLocal : U32
  temporary : U32
  onExpiry : U32
  routeOffered : U32
  mtuOffered : U32
  announceHostname : U32
  acceptHostname : U32
  dnsOffered : U32
  dnsExclusive : U32
  routeMetric : OptionalU32
  mtu : OptionalU32
  dnsDefaultRoute : OptionalU32
  gateway : Bytes
  gateway6 : Bytes
  statics : Strings
  dnsServers : Strings
  dnsDomains : Strings
deriving DecidableEq, Repr

/-- A configuration value; `kind` says which of the last three fields counts. -/
structure Value where
  name : Bytes
  kind : U32
  integer : U64
  text : Bytes
  list : Strings
deriving DecidableEq, Repr

structure Key where
  name : Bytes
  values : Option (List Value)
  valueCount : U64
  children : Option (List Key)
  childCount : U64
deriving Repr

/-- How code at the boundary can fail: with an error of its own; by reading where nothing is, which is
undefined; by arithmetic that leaves its type; or by an expectation that does not hold. -/
inductive Fault where
  | refused (message : String)
  | unreadable
  | overflow
  | panicked (message : String)
deriving DecidableEq, Repr

def invalid (message : String) : Fault := .refused message

/-- `slice::from_raw_parts`. -/
def fromRawParts {α : Type} (pointer : Option (List α)) (count : U64) : Except Fault (List α) :=
  match pointer with
  | none => .error .unreadable
  | some items => if count.toNat ≤ items.length then .ok (items.take count.toNat) else .error .unreadable

/-- The length of a slice as a machine word. -/
def len {α : Type} (items : List α) : U64 := .ofNat 64 items.length

/-- A view of octets; the view of none at all is not null. -/
def span (octets : List U8) : Bytes := ⟨some octets, len octets⟩

end Netd.Model.Abi
