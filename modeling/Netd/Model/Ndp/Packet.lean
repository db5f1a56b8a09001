import Netd.Model.Core.Text

/-! # The neighbour-discovery codec

`ndp/src/packet.rs`: router advertisements in, router solicitations out. Every option is a type, a
length in units of eight octets, and its body; a malformed option skips that option and a malformed
message is `none`. Option slices are read at the offsets the source reads them at.
-/

namespace Netd.Model.Ndp

abbrev routerSolicit : U8 := 133
abbrev routerAdvert : U8 := 134

abbrev optionSourceLla : U8 := 1
abbrev optionPrefixInfo : U8 := 3
abbrev optionMtu : U8 := 5
abbrev optionRdnss : U8 := 25
abbrev optionDnssl : U8 := 31

/-- Ceilings on what one advertisement may carry. -/
def maxPrefixes : ℕ := 16

def maxServers : ℕ := 16

def maxDomains : ℕ := 16

/-- A prefix-information option (RFC 4861 §4.6.2); a lifetime of all ones means forever. -/
structure PrefixInfo where
  prefixAddr : Ipv6Addr
  length : U8
  onLink : Bool
  autonomous : Bool
  valid : U32
  preferred : U32
deriving DecidableEq, Repr

/-- A recursive-DNS-server option (RFC 8106 §5.1). -/
structure Rdnss where
  lifetime : U32
  servers : List Ipv6Addr
deriving DecidableEq, Repr

/-- A DNS-search-list option (RFC 8106 §5.2). -/
structure Dnssl where
  lifetime : U32
  domains : List String
deriving DecidableEq, Repr

/-- A router advertisement, decoded. -/
structure RouterAdvert where
  managed : Bool
  otherConfig : Bool
  routerLifetime : U16
  mtu : Option U32
  prefixes : List PrefixInfo
  rdnss : List Rdnss
  dnssl : List Dnssl
deriving DecidableEq, Repr

/-- Octets of a slice whose length was checked before. -/
def slice (octets : Bytes) (start stop : ℕ) : Bytes := (octets.drop start).take (stop - start)

def prefixInfo (option : Bytes) : Option PrefixInfo :=
  if option.length ≠ 32 then none
  else
    let length := option.getD 2 0
    if 128 < length then none
    else
      let prefixAddr : Ipv6Addr := fromBeBytes (slice option 16 32)
      -- Never autoconfigure from link-local or multicast (RFC 4862 §5.5.3).
      if prefixAddr.isMulticast || isV6LinkLocal prefixAddr then none
      else some
        { prefixAddr := prefixAddr
          length := length
          onLink := option.getD 3 0 &&& 0x80 != 0
          autonomous := option.getD 3 0 &&& 0x40 != 0
          valid := fromBeBytes (slice option 4 8)
          preferred := fromBeBytes (slice option 8 12) }

/-- Whole groups of sixteen octets; a shorter tail is dropped. -/
def chunksOfSixteen (octets : Bytes) : List Ipv6Addr :=
  (List.range (octets.length / 16)).map fun index => fromBeBytes (slice octets (16 * index) (16 * index + 16))

def rdnss (option : Bytes) : Option Rdnss :=
  if option.length < 24 ∨ (option.length - 8) % 16 ≠ 0 then none
  else some
    { lifetime := fromBeBytes (slice option 4 8)
      servers := ((chunksOfSixteen (option.drop 8)).take maxServers).filter fun server =>
        !server.isUnspecified && !server.isMulticast && !server.isLoopback }

/-- `u8::is_ascii_graphic`. -/
def isAsciiGraphic (octet : U8) : Bool := decide (0x21 ≤ octet) && decide (octet ≤ 0x7e)

/-- The labels up to the terminating zero, joined, with what follows it. `none` is a malformed name. -/
def domainName (octets : Bytes) (name : String) : Option (String × Bytes) :=
  match octets with
  | [] => none
  | length :: rest =>
    if length = 0 then some (name, rest)
    -- 0xC0.. is compression, forbidden here; > 63 is not a label.
    else if 63 < length.toNat ∨ rest.length < length.toNat ∨ 253 < name.utf8ByteSize + length.toNat + 1 then none
    else
      let label := rest.take length.toNat
      if !label.all isAsciiGraphic then none
      else
        let name := if name.isEmpty then name else name ++ "."
        domainName (rest.drop length.toNat) (name ++ toAsciiLowercase (fromUtf8Lossy label))
termination_by octets.length
decreasing_by
  simp only [List.length_drop, List.length_cons]
  omega

/-- A name consumes its terminator at least. -/
theorem domainName_length {octets : Bytes} {name : String} {found : String × Bytes}
    (read : domainName octets name = some found) : found.2.length < octets.length := by
  fun_induction domainName octets name with
  | case1 | case3 | case4 => contradiction
  | case2 =>
    obtain rfl := Option.some.inj read
    simp
  | case5 name length rest nonzero fits label graphic longer ih =>
    have shorter := ih read
    simp only [List.length_drop, List.length_cons] at shorter ⊢
    omega

/-- The names from here on, behind those already read; a malformed name ends the walk. -/
def domainNames (octets : Bytes) (names : List String) : List String :=
  if octets.isEmpty = false ∧ names.length < maxDomains then
    match _read : domainName octets "" with
    | none => names
    | some (name, rest) =>
      let names := if name.isEmpty then names else names ++ [name]
      -- Trailing zero padding to the option's 8-byte boundary.
      if rest.all (· == 0) then names else domainNames rest names
  else names
termination_by octets.length
decreasing_by exact domainName_length _read

/-- A sequence of uncompressed DNS wire names. -/
def domainList (octets : Bytes) : List String := domainNames octets []

def dnssl (option : Bytes) : Option Dnssl :=
  if option.length < 16 then none
  else some { lifetime := fromBeBytes (slice option 4 8), domains := domainList (option.drop 8) }

namespace RouterAdvert

/-- What one option adds. -/
def addOption (ra : RouterAdvert) (kind : U8) (option : Bytes) : RouterAdvert :=
  if kind = optionPrefixInfo ∧ ra.prefixes.length < maxPrefixes then
    match prefixInfo option with
    | some info => { ra with prefixes := ra.prefixes ++ [info] }
    | none => ra
  else if kind = optionMtu ∧ option.length = 8 then { ra with mtu := some (fromBeBytes (slice option 4 8)) }
  else if kind = optionRdnss then
    match Ndp.rdnss option with
    | some servers => { ra with rdnss := ra.rdnss ++ [servers] }
    | none => ra
  else if kind = optionDnssl then
    match Ndp.dnssl option with
    | some domains => { ra with dnssl := ra.dnssl ++ [domains] }
    | none => ra
  else ra

def decodeOptions (rest : Bytes) (ra : RouterAdvert) : Option RouterAdvert :=
  match rest with
  | [] => some ra
  | [_] => none
  | kind :: units :: tail =>
    let length := units.toNat * 8
    -- A zero-length option would loop forever; the RFC forbids it.
    if length = 0 ∨ (kind :: units :: tail).length < length then none
    else decodeOptions ((kind :: units :: tail).drop length)
      (ra.addOption kind ((kind :: units :: tail).take length))
termination_by rest.length
decreasing_by
  simp only [List.length_drop, List.length_cons]
  omega

/-- Decode an ICMPv6 body claiming to be a router advertisement. -/
def decode (body : Bytes) : Option RouterAdvert :=
  if body.length < 16 ∨ body.getD 0 0 ≠ routerAdvert ∨ body.getD 1 0 ≠ 0 then none
  else decodeOptions (body.drop 16)
    { managed := body.getD 5 0 &&& 0x80 != 0
      otherConfig := body.getD 5 0 &&& 0x40 != 0
      routerLifetime := fromBeBytes (slice body 6 8)
      mtu := none
      prefixes := []
      rdnss := []
      dnssl := [] }

end RouterAdvert

/-- A router solicitation (RFC 4861 §4.1), with our link-layer address. -/
def solicit (sourceMac : Option Mac) : Bytes :=
  [routerSolicit, 0, 0, 0, 0, 0, 0, 0] ++
    match sourceMac with
    | some mac => [optionSourceLla, 1] ++ toBeBytes 6 mac
    | none => []

end Netd.Model.Ndp
