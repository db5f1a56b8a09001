import Netd.Model.Reconcile

/-! # What an address request says

`address_message` of `netd/src/netlink.rs`, and what the kernel keeps of it. Beside the address, its
prefix and its flags an IPv4 entry keeps the broadcast address it was given, which a dump does not
bring back to netd. The shift of the source is defined for prefixes of at most 32 bits, the ones an
IPv4 address has.
-/

namespace Netd.Model.Netlink

open Reconcile (Op perform plan Desired)

inductive AddressFamily where
  | inet
  | inet6
deriving DecidableEq, Repr

inductive AddressScope where
  | universe
  | link
deriving DecidableEq, Repr

inductive AddressAttribute where
  | localAddress (address : IpAddr)
  | address (address : IpAddr)
  | broadcast (address : Ipv4Addr)
  | noPrefixRoute
  | cacheInfo (preferred valid : U32)
deriving DecidableEq, Repr

structure AddressMessage where
  family : AddressFamily
  prefixLength : U8
  scope : AddressScope
  index : U32
  attributes : List AddressAttribute
deriving DecidableEq, Repr

/-- `Ipv4Addr::is_link_local`, 169.254.0.0/16. -/
def isV4LinkLocal (address : Ipv4Addr) : Bool := address >>> 16 == 0xa9fe

/-- The all-ones address of a subnet. -/
def subnetBroadcast (address : Ipv4Addr) (prefixLength : U8) : Ipv4Addr :=
  let mask : Ipv4Addr := if prefixLength = 0 then 0 else BitVec.allOnes 32 <<< (32 - prefixLength.toNat)
  address ||| ~~~mask

def addressMessage (a : Address) (broadcast : Option Ipv4Addr) : AddressMessage :=
  match a.address with
  | .v4 ip =>
    { family := .inet
      prefixLength := a.prefixLength
      scope := if isV4LinkLocal ip then .link else .universe
      index := a.index
      attributes := [.localAddress (.v4 ip), .address (.v4 ip)] ++
        if a.prefixLength < 31 then [.broadcast (broadcast.getD (subnetBroadcast ip a.prefixLength))] else [] }
  | .v6 ip =>
    { family := .inet6
      prefixLength := a.prefixLength
      scope := if isV6LinkLocal ip then .link else .universe
      index := a.index
      attributes := [.address (.v6 ip)] ++ (if a.noPrefixRoute then [.noPrefixRoute] else []) ++
        [.cacheInfo (if a.deprecated then 0 else BitVec.allOnes 32) (BitVec.allOnes 32)] }

/-- One address as the kernel keeps it. -/
structure Entry where
  address : Address
  broadcast : Option Ipv4Addr
deriving DecidableEq, Repr

def Entry.key (e : Entry) : U32 × IpAddr × U8 := e.address.key

namespace AddressMessage

/-- The interface's own address, which is also sent as that of its peer. -/
def ip (m : AddressMessage) : IpAddr :=
  (m.attributes.findSome? fun
    | .address address => some address
    | _ => none).getD (.v4 0)

def broadcast (m : AddressMessage) : Option Ipv4Addr :=
  m.attributes.findSome? fun
    | .broadcast address => some address
    | _ => none

/-- What the kernel keeps, duplicate address detection left out of account. A preferred lifetime of zero
is what it reports as deprecated. -/
def entry (m : AddressMessage) : Entry where
  address :=
    { index := m.index
      address := m.ip
      prefixLength := m.prefixLength
      deprecated := m.attributes.any fun
        | .cacheInfo preferred _ => preferred == 0
        | _ => false
      noPrefixRoute := m.attributes.contains .noPrefixRoute
      tentative := false }
  broadcast := m.broadcast

end AddressMessage

/-! ## A kernel that keeps broadcast addresses -/

structure Kernel where
  links : SortedMap U32 Link
  entries : List Entry
  routes : List Route

namespace Kernel

/-- What a dump reports. -/
def observed (k : Kernel) : Observed := ⟨k.links, k.entries.map Entry.address, k.routes⟩

/-- What an accepted operation does. -/
def perform (k : Kernel) : Op → Kernel
  | .addAddress a broadcast =>
    { k with entries := KeyedTable.put Entry.key k.entries (addressMessage a broadcast).entry }
  | .delAddress a => { k with entries := KeyedTable.drop Entry.key k.entries (addressMessage a none).entry }
  | op =>
    let o := Reconcile.perform k.observed op
    { k with links := o.links, routes := o.routes }

/-- One reconciliation, every planned operation accepted. -/
def reconcile (k : Kernel) (desired : Desired) : Kernel := (plan k.observed desired).foldl perform k

/-- One desired state after another. -/
def history (k : Kernel) (desireds : List Desired) : Kernel := desireds.foldl reconcile k

end Kernel

end Netd.Model.Netlink
