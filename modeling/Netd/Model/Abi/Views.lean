import Netd.Model.Abi
import Netd.Model.Core.Display
import Netd.Model.Profile
import Netd.Model.Wire

/-! # Results at the C boundary

`Arena` of `libnetd/src/views.rs` with `ResultHandle::reply` of `libnetd/src/lib.rs`, which lay results out
for C, and `netd-client/src/decode.rs`, which copies them back. The arena's allocations live as long as
the result, so a view refers to its text itself.
-/

namespace Netd.Model.Abi

open Wire (InterfaceStatus LeaseStatus Level)

/-! ## The library's side -/

/-- `u32::from` of a flag. -/
def flag (value : Bool) : U32 := if value then 1 else 0

namespace Arena

def absent : Bytes := ⟨none, 0⟩

def optional (value : Option U32) : OptionalU32 := ⟨flag value.isSome, value.getD 0⟩

def level : Level → U32
  | .absent => 0
  | .link => 1
  | .addressed => 2
  | .routed => 3

def onExpiry : OnExpiry → U32
  | .drop => 0
  | .keep => 1

def text (value : String) : Bytes := span (asBytes value)

def maybeText : Option String → Bytes
  | none => absent
  | some value => text value

def strings (values : List String) : Strings :=
  let views := values.map text
  ⟨some views, len views⟩

/-- A lease that is absent is laid out as an empty one. -/
def lease (value : Option LeaseStatus) : Lease :=
  let lease := value.getD {}
  { present := flag value.isSome
    server := text lease.server
    state := text lease.state
    expiresIn := lease.expiresIn
    duration := lease.duration
    renewAt := lease.renewAt
    rebindAt := lease.rebindAt }

def interface (value : InterfaceStatus) : Interface where
  ifid := text value.ifid
  name := text value.name
  mac := text value.mac
  path := text value.path
  driver := text value.driver
  verdict := maybeText value.verdict
  rule := maybeText value.rule
  profile := maybeText value.profile
  network := maybeText value.network
  networkName := maybeText value.networkName
  networkTrust := maybeText value.networkTrust
  warning := maybeText value.warning
  gateway := maybeText value.gateway
  gateway6 := maybeText value.gateway6
  index := value.index
  up := flag value.up
  carrier := flag value.carrier
  level := level value.level
  addresses := strings value.addresses
  dns := strings value.dns
  search := strings value.search
  lease := lease value.lease

def scope (value : Wire.DnsScope) : DnsScope where
  ifid := text value.ifid
  name := text value.name
  servers := strings value.servers
  domains := strings value.domains
  ntp := strings value.ntp
  addresses := strings value.addresses
  defaultRoute := flag value.defaultRoute
  exclusive := flag value.exclusive
  metric := value.metric
  level := level value.level

/-- An address with the length of its prefix. -/
def cidr (entry : StaticAddress) : String := entry.address.display ++ "/" ++ toString entry.prefixLength.toNat

def profile (value : Model.Profile) : Profile where
  path := text value.path
  enabled := flag value.enabled
  offered := flag value.address.offered
  ipv4 := flag value.address.ipv4
  ipv6 := flag value.address.ipv6
  linkLocal := flag value.address.linkLocal
  temporary := flag value.address.temporary
  onExpiry := onExpiry value.address.onExpiry
  routeOffered := flag value.address.routeOffered
  mtuOffered := flag value.address.mtuOffered
  announceHostname := flag value.address.announceHostname
  acceptHostname := flag value.address.acceptHostname
  dnsOffered := flag value.dns.offered
  dnsExclusive := flag value.dns.exclusive
  routeMetric := optional value.address.routeMetric
  mtu := optional value.address.mtu
  dnsDefaultRoute := optional (value.dns.defaultRoute.map flag)
  gateway := maybeText (value.address.gateway.map Ipv4Addr.display)
  gateway6 := maybeText (value.address.gateway6.map Ipv6Addr.display)
  statics := strings (value.address.statics.map cidr)
  dnsServers := strings (value.dns.servers.map IpAddr.display)
  dnsDomains := strings value.dns.domains

def status (value : Wire.Status) : Status :=
  let interfaces := value.interfaces.map interface
  { hostname := text value.hostname
    level := level value.level
    refusal := maybeText value.refusal
    interfaces := some interfaces
    interfaceCount := len interfaces }

def snapshot (value : Wire.Snapshot) : Snapshot :=
  let scopes := value.scopes.map scope
  { hostname := text value.hostname
    scopes := some scopes
    scopeCount := len scopes }

end Arena

/-! ## The client's side -/

namespace Decode

def array {α : Type} (pointer : Option (List α)) (count : U64) : Except Fault (List α) :=
  if count = 0 then .ok [] else fromRawParts pointer count

def text (value : Bytes) : Except Fault String := do
  let octets ← array value.data value.len
  match fromUtf8 octets with
  | some text => return text
  | none => throw (.panicked "libnetd returned non-UTF-8 text")

def optionalText (value : Bytes) : Except Fault (Option String) :=
  if value.data.isSome then (text value).map some else .ok none

def strings (value : Strings) : Except Fault (List String) := do
  let spans ← array value.data value.len
  spans.mapM text

def optional (value : OptionalU32) : Option U32 := if value.present ≠ 0 then some value.value else none

def level (value : U32) : Except Fault Level :=
  match value.toNat with
  | 0 => .ok .absent
  | 1 => .ok .link
  | 2 => .ok .addressed
  | 3 => .ok .routed
  | _ => .error (invalid "unknown libnetd readiness level")

def lease (value : Lease) : Except Fault (Option LeaseStatus) :=
  if value.present = 0 then .ok none
  else do
    let server ← text value.server
    let state ← text value.state
    return some
      { server
        state
        expiresIn := value.expiresIn
        duration := value.duration
        renewAt := value.renewAt
        rebindAt := value.rebindAt }

def interface (value : Interface) : Except Fault InterfaceStatus := do
  let ifid ← text value.ifid
  let name ← text value.name
  let mac ← text value.mac
  let path ← text value.path
  let driver ← text value.driver
  let verdict ← optionalText value.verdict
  let rule ← optionalText value.rule
  let profile ← optionalText value.profile
  let network ← optionalText value.network
  let networkName ← optionalText value.networkName
  let networkTrust ← optionalText value.networkTrust
  let warning ← optionalText value.warning
  let level ← level value.level
  let addresses ← strings value.addresses
  let gateway ← optionalText value.gateway
  let gateway6 ← optionalText value.gateway6
  let dns ← strings value.dns
  let search ← strings value.search
  let lease ← lease value.lease
  return {
    ifid, name, mac, path, driver, verdict, rule, profile, network, networkName, networkTrust, warning, level,
    addresses, gateway, gateway6, dns, search, lease
    index := value.index
    up := value.up ≠ 0
    carrier := value.carrier ≠ 0 }

/-- A null pointer is no view at all. -/
def status : Option Status → Except Fault Wire.Status
  | none => .error (invalid "missing status view")
  | some value => do
    let hostname ← text value.hostname
    let level ← level value.level
    let refusal ← optionalText value.refusal
    let interfaces ← (← array value.interfaces value.interfaceCount).mapM interface
    return { hostname, level, refusal, interfaces }

def scope (value : DnsScope) : Except Fault Wire.DnsScope := do
  let ifid ← text value.ifid
  let name ← text value.name
  let servers ← strings value.servers
  let domains ← strings value.domains
  let ntp ← strings value.ntp
  let addresses ← strings value.addresses
  let level ← level value.level
  return {
    ifid, name, servers, domains, ntp, addresses, level
    defaultRoute := value.defaultRoute ≠ 0
    exclusive := value.exclusive ≠ 0
    metric := value.metric }

def snapshot : Option Snapshot → Except Fault Wire.Snapshot
  | none => .error (invalid "missing snapshot view")
  | some value => do
    let hostname ← text value.hostname
    let scopes ← (← array value.scopes value.scopeCount).mapM scope
    return { hostname, scopes }

/-- `FromStr`, with the error of this module. -/
def parsed {α : Type} (value : Option α) : Except Fault α :=
  match value with
  | some value => .ok value
  | none => .error (invalid "libnetd returned an invalid address")

def staticAddress (text : String) : Except Fault StaticAddress :=
  match splitOnce text '/' with
  | none => .error (invalid "missing CIDR prefix")
  | some (address, length) => do
    let address ← parsed (parseIpAddr address)
    let prefixLength ← parsed (parseUnsigned 8 length)
    return { address, prefixLength }

/-- `Option::map` and `transpose`. -/
def transposed {α : Type} (parse : String → Option α) : Option String → Except Fault (Option α)
  | none => .ok none
  | some text => (parsed (parse text)).map some

def onExpiry (value : U32) : Except Fault OnExpiry :=
  match value.toNat with
  | 0 => .ok .drop
  | 1 => .ok .keep
  | _ => .error (invalid "unknown expiry action")

def profile : Option Profile → Except Fault Model.Profile
  | none => .error (invalid "missing profile view")
  | some value => do
    let path ← text value.path
    let statics ← (← strings value.statics).mapM staticAddress
    let onExpiry ← onExpiry value.onExpiry
    let gateway ← transposed parseIpv4Addr (← optionalText value.gateway)
    let gateway6 ← transposed parseIpv6Addr (← optionalText value.gateway6)
    let servers ← (← strings value.dnsServers).mapM fun text => parsed (parseIpAddr text)
    let domains ← strings value.dnsDomains
    return {
      path
      enabled := value.enabled ≠ 0
      address := {
        offered := value.offered ≠ 0
        ipv4 := value.ipv4 ≠ 0
        ipv6 := value.ipv6 ≠ 0
        statics
        linkLocal := value.linkLocal ≠ 0
        temporary := value.temporary ≠ 0
        onExpiry
        routeOffered := value.routeOffered ≠ 0
        gateway
        gateway6
        routeMetric := optional value.routeMetric
        mtuOffered := value.mtuOffered ≠ 0
        mtu := optional value.mtu
        announceHostname := value.announceHostname ≠ 0
        acceptHostname := value.acceptHostname ≠ 0 }
      dns := {
        servers
        domains
        offered := value.dnsOffered ≠ 0
        defaultRoute := (optional value.dnsDefaultRoute).map fun value => value ≠ 0
        exclusive := value.dnsExclusive ≠ 0 } }

end Decode

end Netd.Model.Abi
