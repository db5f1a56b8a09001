import Mathlib.Algebra.Ring.Nat
import Netd.Math.SortedMap

/-! # Machine integers, instants, and addresses

Fixed-width integers are bit vectors, so comparison, shifts and wrapping arithmetic are those of
the source's own types. An `Instant` or a `Duration` is a natural number of nanoseconds; the
monotonic clock never overflows in practice and is unbounded here. IP addresses are the numbers
their octets spell in network order, which is also how they compare.
-/

namespace Netd.Model

abbrev U8 := BitVec 8
abbrev U16 := BitVec 16
abbrev U32 := BitVec 32
abbrev U64 := BitVec 64

abbrev Bytes := List U8

/-- Nanoseconds in a number of seconds. -/
def Duration.fromSecs (seconds : ℕ) : ℕ := seconds * 1000000000

/-- Nanoseconds in a number of milliseconds. -/
def Duration.fromMillis (milliseconds : ℕ) : ℕ := milliseconds * 1000000

/-- Whole seconds. -/
def Duration.asSecs (duration : ℕ) : ℕ := duration / 1000000000

/-- Whole milliseconds. -/
def Duration.asMillis (duration : ℕ) : ℕ := duration / 1000000

abbrev Ipv4Addr := BitVec 32
abbrev Ipv6Addr := BitVec 128
abbrev Mac := BitVec 48

/-- The octets of a number of `count` octets, most significant first. -/
def toBeBytes {w : ℕ} (count : ℕ) (value : BitVec w) : Bytes :=
  (List.range count).map fun index => value.extractLsb' (8 * (count - 1 - index)) 8

/-- The number that octets spell, most significant first. -/
def fromBeBytes {w : ℕ} (octets : Bytes) : BitVec w :=
  octets.foldl (fun value octet => value <<< 8 ||| octet.setWidth w) 0

def Ipv4Addr.unspecified : Ipv4Addr := 0

def Ipv4Addr.isUnspecified (address : Ipv4Addr) : Bool := address == 0

def Ipv4Addr.octets (address : Ipv4Addr) : Bytes := toBeBytes 4 address

def Ipv6Addr.unspecified : Ipv6Addr := 0

def Ipv6Addr.isUnspecified (address : Ipv6Addr) : Bool := address == 0

def Ipv6Addr.isLoopback (address : Ipv6Addr) : Bool := address == 1

def Ipv6Addr.isMulticast (address : Ipv6Addr) : Bool := address.extractLsb' 120 8 == 0xff#8

def Ipv6Addr.octets (address : Ipv6Addr) : Bytes := toBeBytes 16 address

/-- `fe80::/10`, by the first segment as `is_v6_link_local` reads it. -/
def isV6LinkLocal (address : Ipv6Addr) : Bool :=
  (address.extractLsb' 112 16 &&& 0xffc0#16) == 0xfe80#16

inductive IpAddr where
  | v4 (address : Ipv4Addr)
  | v6 (address : Ipv6Addr)
deriving DecidableEq, Repr

namespace IpAddr

/-- Every IPv4 address comes before every IPv6 address. -/
def sortKey : IpAddr → ℕ ×ₗ ℕ
  | v4 address => toLex (0, address.toNat)
  | v6 address => toLex (1, address.toNat)

theorem sortKey_injective : Function.Injective sortKey := by
  intro first second same
  cases first <;> cases second <;>
    simp [sortKey, ← BitVec.toNat_inj] at same ⊢
  all_goals exact same

instance : LinearOrder IpAddr := LinearOrder.lift' sortKey sortKey_injective

end IpAddr

end Netd.Model
