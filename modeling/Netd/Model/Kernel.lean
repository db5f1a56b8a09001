import Mathlib.Order.WithBot
import Netd.Math.KeyedTable
import Netd.Model.Core.Data

/-! # What the kernel says the network is

`netd/src/model.rs`: links, addresses and routes as a dump reports them. Addresses and routes
order by their fields in the order in which the source declares them, as the derived comparisons
do. The tables also say what an accepted request does to them: an address is addressed by its
interface, address and prefix, a route by all of its fields.
-/

namespace Netd.Model

/-- The routing protocol number netd stamps on routes it owns. -/
def rtprotNetd : U8 := 200

inductive LinkKind where
  | loopback
  | ether
  | wireless
  | other
deriving DecidableEq, Repr

structure Link where
  index : U32
  name : String
  mac : Option Mac
  up : Bool
  carrier : Bool
  loopback : Bool
  mtu : U32
  linkType : U16
  kind : LinkKind
deriving DecidableEq, Repr

structure Address where
  index : U32
  address : IpAddr
  prefixLength : U8
  deprecated : Bool
  noPrefixRoute : Bool
  tentative : Bool
deriving DecidableEq, Repr

namespace Address

def new (index : U32) (address : IpAddr) (prefixLength : U8) : Address where
  index
  address
  prefixLength
  deprecated := false
  noPrefixRoute := false
  tentative := false

/-- The derived order compares fields in declaration order. -/
def sortKey (a : Address) : U32 ×ₗ IpAddr ×ₗ U8 ×ₗ Bool ×ₗ Bool ×ₗ Bool :=
  toLex (a.index, toLex (a.address, toLex (a.prefixLength,
    toLex (a.deprecated, toLex (a.noPrefixRoute, a.tentative)))))

theorem sortKey_injective : Function.Injective sortKey := by
  rintro ⟨⟩ ⟨⟩ same
  simpa [sortKey] using same

instance : LinearOrder Address := LinearOrder.lift' sortKey sortKey_injective

/-- What identifies an address in the kernel's table. -/
def key (a : Address) : U32 × IpAddr × U8 := (a.index, a.address, a.prefixLength)

/-- The address with duplicate address detection left out of account. -/
def settled (a : Address) : Address := { a with tentative := false }

/-- An IPv6 link-local, which the kernel makes for itself. -/
def isLinkLocal6 (a : Address) : Bool :=
  match a.address with
  | .v4 _ => false
  | .v6 address => isV6LinkLocal address

end Address

structure Route where
  index : U32
  destination : IpAddr
  prefixLength : U8
  gateway : Option IpAddr
  metric : U32
  protocol : U8
deriving DecidableEq, Repr

namespace Route

def isV4 (r : Route) : Bool :=
  match r.destination with
  | .v4 _ => true
  | .v6 _ => false

/-- No gateway comes before any. -/
def gatewayKey : Option IpAddr → WithBot IpAddr
  | none => ⊥
  | some gateway => gateway

theorem gatewayKey_injective : Function.Injective gatewayKey := by
  intro first second same
  cases first <;> cases second <;> simp_all [gatewayKey]

/-- The derived order compares fields in declaration order. -/
def sortKey (r : Route) : U32 ×ₗ IpAddr ×ₗ U8 ×ₗ WithBot IpAddr ×ₗ U32 ×ₗ U8 :=
  toLex (r.index, toLex (r.destination, toLex (r.prefixLength,
    toLex (gatewayKey r.gateway, toLex (r.metric, r.protocol)))))

theorem sortKey_injective : Function.Injective sortKey := by
  rintro ⟨⟩ ⟨⟩ same
  simpa [sortKey, gatewayKey_injective.eq_iff] using same

instance : LinearOrder Route := LinearOrder.lift' sortKey sortKey_injective

end Route

/-- A snapshot of kernel network state. -/
structure Observed where
  links : SortedMap U32 Link
  addresses : List Address
  routes : List Route

namespace Observed

def addressesOf (o : Observed) (index : U32) : List Address :=
  o.addresses.filter fun a => a.index = index

def routesOf (o : Observed) (index : U32) : List Route :=
  o.routes.filter fun r => r.index = index

/-! ## What an accepted request does -/

def setLinkUp (o : Observed) (index : U32) (up : Bool) : Observed :=
  { o with links := o.links.modify index fun link => { link with up } }

def setMtu (o : Observed) (index : U32) (mtu : U32) : Observed :=
  { o with links := o.links.modify index fun link => { link with mtu } }

def addAddress (o : Observed) (address : Address) : Observed :=
  { o with addresses := KeyedTable.put Address.key o.addresses address }

def delAddress (o : Observed) (address : Address) : Observed :=
  { o with addresses := KeyedTable.drop Address.key o.addresses address }

def addRoute (o : Observed) (route : Route) : Observed :=
  { o with routes := KeyedTable.put id o.routes route }

def delRoute (o : Observed) (route : Route) : Observed :=
  { o with routes := KeyedTable.drop id o.routes route }

end Observed

end Netd.Model
