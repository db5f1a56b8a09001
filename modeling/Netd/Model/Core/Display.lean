import Netd.Model.Core.Data

/-! # Addresses as text

`Display` of the standard library's addresses. An IPv6 address leaves out its longest run of zero
groups, the first of several, unless that is a single group; one that maps an IPv4 address shows it.
-/

namespace Netd.Model

def Ipv4Addr.display (address : Ipv4Addr) : String :=
  ".".intercalate ((Ipv4Addr.octets address).map fun octet => toString octet.toNat)

/-- A number in hexadecimal, without leading zeros. -/
def lowerHex (n : ℕ) : String := String.ofList (Nat.toDigits 16 n)

/-- The eight groups of an address, most significant first. -/
def Ipv6Addr.segments (address : Ipv6Addr) : List U16 :=
  (List.range 8).map fun index => address.extractLsb' (16 * (7 - index)) 16

/-- A run of zero groups. -/
structure ZeroSpan where
  start : ℕ
  length : ℕ

/-- The longest run of zeros among groups, given the one that ends here. -/
def longestZeros : ℕ → ZeroSpan → ZeroSpan → List U16 → ZeroSpan
  | _, longest, _, [] => longest
  | index, longest, current, group :: rest =>
    if group = 0 then
      let current : ZeroSpan := ⟨if current.length = 0 then index else current.start, current.length + 1⟩
      longestZeros (index + 1) (if longest.length < current.length then current else longest) current rest
    else longestZeros (index + 1) longest ⟨0, 0⟩ rest

def displayGroups (groups : List U16) : String :=
  ":".intercalate (groups.map fun group => lowerHex group.toNat)

def Ipv6Addr.display (address : Ipv6Addr) : String :=
  let segments := Ipv6Addr.segments address
  if address.extractLsb' 32 96 = 0xffff#96 then
    "::ffff:" ++ Ipv4Addr.display (address.extractLsb' 0 32)
  else
    let zeros := longestZeros 0 ⟨0, 0⟩ ⟨0, 0⟩ segments
    if 1 < zeros.length then
      displayGroups (segments.take zeros.start) ++ "::" ++ displayGroups (segments.drop (zeros.start + zeros.length))
    else displayGroups segments

def IpAddr.display : IpAddr → String
  | v4 address => Ipv4Addr.display address
  | v6 address => Ipv6Addr.display address

end Netd.Model
