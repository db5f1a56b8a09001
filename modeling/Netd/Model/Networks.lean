import Netd.Model.Core.Display
import Netd.Model.Interface
import Netd.Model.Reload

/-! # Networks

`netd/src/networks.rs` with `Interface::signals` of `netd/src/main.rs`: what the network on the other
side of an interface has shown, and the identity derived from it. A wired network is the DHCP server
that answered plus the subnet it handed out; an IPv6-only network is the router that advertised plus
its first prefix. SHA-1 is a parameter.
-/

namespace Netd.Model

namespace Networks

/-- What the network showed us, from which its identity is derived. -/
structure Signals where
  kind : String
  server : Option Ipv4Addr := none
  subnet : Option (Ipv4Addr × U8) := none
  gateway : Option Ipv4Addr := none
  router6 : Option Ipv6Addr := none
  prefixes6 : List (Ipv6Addr × U8) := []
  dns : List IpAddr := []
deriving DecidableEq, Repr

/-- An address masked to its first bits, in either family. -/
def masked {w : ℕ} (address : BitVec w) (length : U8) : BitVec w :=
  let mask := if length = 0 then 0 else BitVec.allOnes w <<< (w - min length.toNat w)
  address &&& mask

/-- The subnet a lease describes. -/
def subnetOf (address : Ipv4Addr) (length : U8) : Ipv4Addr × U8 := (masked address length, length)

/-- An octet as two hexadecimal digits. -/
def hexOctet (octet : U8) : String :=
  String.ofList [Nat.digitChar (octet.toNat / 16), Nat.digitChar (octet.toNat % 16)]

/-- UUID-shaped, like an interface id, so the two kinds of key read alike. -/
def derive (sha1 : Bytes → BitVec 160) (kind basis : String) : String :=
  let digest := sha1 (asBytes "peios-netd-network|" ++ asBytes kind ++ asBytes "|" ++ asBytes basis)
  let b := (toBeBytes 20 digest).take 16
  let b := b.modify 6 fun octet => (octet &&& 0x0f) ||| 0x50
  let b := b.modify 8 fun octet => (octet &&& 0x3f) ||| 0x80
  let group (start stop : ℕ) := String.join (((b.drop start).take (stop - start)).map hexOctet)
  "-".intercalate [group 0 4, group 4 6, group 6 8, group 8 10, group 10 16]

/-- The network's identity; `none` when nothing identifying has been seen yet. -/
def Signals.identity (sha1 : Bytes → BitVec 160) (s : Signals) : Option String :=
  match s.server, s.subnet with
  | some server, some (net, length) =>
    some (derive sha1 s.kind
      ("dhcp:" ++ Ipv4Addr.display server ++ "|" ++ Ipv4Addr.display net ++ "/" ++ toString length.toNat))
  | _, _ =>
    match s.router6, s.prefixes6.head? with
    | some router, some (net, length) =>
      some (derive sha1 s.kind
        ("ra:" ++ Ipv6Addr.display router ++ "|" ++ Ipv6Addr.display net ++ "/" ++ toString length.toNat))
    | _, _ => none

/-- The prefix of one address of the engine, unless it is deprecated or its prefix is known. -/
def addPrefix6 (prefixes : List (Ipv6Addr × U8)) (a : Ndp.DesiredAddress) : List (Ipv6Addr × U8) :=
  if a.deprecated then prefixes
  else
    let net := (masked a.address a.prefixLength, a.prefixLength)
    if prefixes.contains net then prefixes else prefixes ++ [net]

end Networks

open Networks (Signals subnetOf addPrefix6)

/-- What the network has shown on this link, for its identity. -/
def Interface.signals (i : Interface) (now : ℕ) : Signals :=
  let s : Signals := { kind := i.link.kind.asStr }
  let s :=
    match i.lease with
    | none => s
    | some lease =>
      { s with
        server := some lease.server
        subnet := some (subnetOf lease.address lease.prefixLength)
        gateway := lease.gateway
        dns := s.dns ++ lease.dns.map .v4 }
  match i.ndp with
  | none => s
  | some engine =>
    { s with
      router6 := engine.defaultRouter now
      prefixes6 := (engine.addresses now).foldl addPrefix6 s.prefixes6
      dns := s.dns ++ (engine.dnsServers now).map .v6 }

end Netd.Model
