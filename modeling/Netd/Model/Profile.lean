import Mathlib.Algebra.Group.Int.Defs
import Mathlib.Data.String.Basic
import Netd.Model.Core.Parse

/-! # Profiles

`netd-core/src/profile.rs` over the trees of `netd-core/src/raw.rs`, and the verdicts of
`netd-core/src/policy.rs`: how an interface stands on a network, how that is read from the registry,
and what the interface layer said about it. Defaults are those of the source, which believe nothing
and do nothing. How a text is shown between quotes in an error is left to the reader of the error.
-/

namespace Netd.Model

inductive OnExpiry where
  | drop
  | keep
deriving DecidableEq, Repr

structure StaticAddress where
  address : IpAddr
  prefixLength : U8
deriving DecidableEq, Repr

/-- How the interface gets addressed, finds its way out, and what it tells the network. -/
structure AddressConfig where
  offered : Bool := false
  ipv4 : Bool := true
  ipv6 : Bool := true
  statics : List StaticAddress := []
  linkLocal : Bool := false
  temporary : Bool := false
  onExpiry : OnExpiry := .drop
  routeOffered : Bool := false
  gateway : Option Ipv4Addr := none
  gateway6 : Option Ipv6Addr := none
  routeMetric : Option U32 := none
  mtuOffered : Bool := false
  mtu : Option U32 := none
  announceHostname : Bool := false
  acceptHostname : Bool := false
deriving DecidableEq, Repr

namespace AddressConfig

/-- Run a DHCPv4 client. -/
def dhcp4 (config : AddressConfig) : Bool := config.offered && config.ipv4

/-- Solicit routers and autoconfigure. -/
def autoconf6 (config : AddressConfig) : Bool := config.offered && config.ipv6

end AddressConfig

/-- What the interface contributes to name resolution. -/
structure DnsConfig where
  servers : List IpAddr := []
  domains : List String := []
  offered : Bool := false
  defaultRoute : Option Bool := none
  exclusive : Bool := false
deriving DecidableEq, Repr

/-- A resolved profile. -/
structure Profile where
  path : String
  enabled : Bool
  address : AddressConfig
  dns : DnsConfig
deriving DecidableEq, Repr

/-- What the interface layer said about one interface. -/
inductive Outcome where
  | join (profile : Profile)
  | ignore
  | down
deriving DecidableEq, Repr

def Outcome.profile : Outcome → Option Profile
  | join profile => some profile
  | ignore | down => none

/-! ## Registry trees -/

/-- A registry value, lowered. -/
inductive RawValue where
  | int (value : U64)
  | str (text : String)
  | list (items : List String)
  | other
deriving DecidableEq, Repr

/-- A registry key, lowered: its name, values and subkeys. -/
structure RawKey where
  name : String
  values : List (String × RawValue)
  children : List RawKey
deriving Repr

mutual

def RawKey.decEq : (first second : RawKey) → Decidable (first = second)
  | ⟨name, values, children⟩, ⟨otherName, otherValues, others⟩ =>
    have := RawKey.decEqs children others
    decidable_of_iff (name = otherName ∧ values = otherValues ∧ children = others) (by simp)

def RawKey.decEqs : (first second : List RawKey) → Decidable (first = second)
  | [], [] => isTrue rfl
  | [], _ :: _ => isFalse nofun
  | _ :: _, [] => isFalse nofun
  | key :: rest, other :: others =>
    have := RawKey.decEq key other
    have := RawKey.decEqs rest others
    decidable_of_iff (key = other ∧ rest = others) (by simp)

end

instance : DecidableEq RawKey := RawKey.decEq

/-- What holds of a key whenever it holds of its subkeys holds of every key. -/
theorem RawKey.induction {motive : RawKey → Prop}
    (step : ∀ key : RawKey, (∀ child ∈ key.children, motive child) → motive key) : ∀ key, motive key
  | ⟨name, values, children⟩ => by
    apply step
    intro child member
    have smaller : sizeOf child < sizeOf children := List.sizeOf_lt_of_mem member
    exact RawKey.induction step child
termination_by key => sizeOf key
decreasing_by
  simp only [RawKey.mk.sizeOf_spec]
  omega

/-! ## Values -/

def asBool : RawValue → Option Bool
  | .int value => some (value ≠ 0)
  | .str text =>
    match toAsciiLowercase text with
    | "on" | "yes" | "true" | "1" => some true
    | "off" | "no" | "false" | "0" => some false
    | _ => none
  | .list _ | .other => none

def asU32 : RawValue → Option U32
  | .int value => if 0 ≤ value.toInt ∧ value.toInt < 2 ^ 32 then some (value.setWidth 32) else none
  | .str text => parseUnsigned 32 (trim text)
  | .list _ | .other => none

/-- A single text is a list of one, and an empty one the empty list. -/
def asList : RawValue → Option (List String)
  | .list items => some (items.filter fun item => !item.isEmpty)
  | .str text => if text.isEmpty then some [] else some [text]
  | .int _ | .other => none

def asStr : RawValue → Option String
  | .str text => some text
  | .int value => some (toString value.toInt)
  | .list _ | .other => none

def parseCidr (text : String) : Option StaticAddress := do
  let (address, length) ← splitOnce text '/'
  let address ← parseIpAddr (trim address)
  let bits : U8 :=
    match address with
    | .v4 _ => 32
    | .v6 _ => 128
  let prefixLength ← (parseUnsigned 8 (trim length)).filter fun length => length ≤ bits
  some { address, prefixLength }

/-- What is wrong with a profile, with the path of its key. -/
inductive ProfileError where
  | badKeyName (parentPath name : String)
  | enabledShape (path : String)
  | unknownValue (path name : String)
  | wrongShape (path name : String)
  | badItem (path name item : String)
  | mtuBelowMinimum (path : String) (mtu : U32)
deriving DecidableEq, Repr

/-- The text of an error; `debug` puts a text between quotes. -/
def ProfileError.text (debug : String → String) : ProfileError → String
  | badKeyName parentPath name => s!"profile {parentPath}: bad key name {debug name}"
  | enabledShape path => s!"profile {path}: Enabled is not 0 or 1"
  | unknownValue path name => s!"profile {path}: unknown value {name}"
  | wrongShape path name => s!"profile {path}: {name} has the wrong shape"
  | badItem path name item => s!"profile {path}: {name}: {debug item}"
  | mtuBelowMinimum path mtu => s!"profile {path}: Mtu.Value {mtu.toNat} is below 68"

/-- `ok_or`. -/
def okOr {ε α : Type} (error : ε) : Option α → Except ε α
  | some value => .ok value
  | none => .error error

/-! ## The vocabulary -/

/-- Lower-cased. -/
def vocabulary : List String :=
  ["address.offered", "address.families", "address.static", "address.linklocal", "address.temporary",
    "address.onexpiry", "route.offered", "route.gateway", "route.metric", "dns.offered", "dns.servers",
    "dns.domains", "dns.default", "dns.exclusive", "hostname.offered", "hostname.announce",
    "mtu.offered", "mtu.value"]

/-- One family of `Address.Families`. -/
def addFamily (path : String) (a : AddressConfig) (item : String) : Except ProfileError AddressConfig :=
  match toAsciiLowercase item with
  | "ipv4" => .ok { a with ipv4 := true }
  | "ipv6" => .ok { a with ipv6 := true }
  | _ => .error (.badItem path "Address.Families" item)

/-- One gateway of `Route.Gateway`; of several of one family the last is taken. -/
def addGateway (path : String) (a : AddressConfig) (item : String) : Except ProfileError AddressConfig :=
  match parseIpAddr (trim item) with
  | some (.v4 v4) => .ok { a with gateway := some v4 }
  | some (.v6 v6) => .ok { a with gateway6 := some v6 }
  | none => .error (.badItem path "Route.Gateway" item)

/-- One value of a profile. -/
def setting (path : String) (config : AddressConfig × DnsConfig) (entry : String × RawValue) :
    Except ProfileError (AddressConfig × DnsConfig) := do
  let (a, d) := config
  let (name, value) := entry
  let bad := ProfileError.wrongShape path name
  match name with
  | "address.offered" => return ({ a with offered := ← okOr bad (asBool value) }, d)
  | "address.families" =>
    let items ← okOr bad (asList value)
    return (← items.foldlM (addFamily path) { a with ipv4 := false, ipv6 := false }, d)
  | "address.static" =>
    let items ← okOr bad (asList value)
    let statics ← items.mapM fun item => okOr (.badItem path "Address.Static" item) (parseCidr item)
    return ({ a with statics }, d)
  | "address.linklocal" => return ({ a with linkLocal := ← okOr bad (asBool value) }, d)
  | "address.temporary" => return ({ a with temporary := ← okOr bad (asBool value) }, d)
  | "address.onexpiry" =>
    match toAsciiLowercase (← okOr bad (asStr value)) with
    | "drop" => return ({ a with onExpiry := .drop }, d)
    | "keep" => return ({ a with onExpiry := .keep }, d)
    | other => throw (.badItem path "Address.OnExpiry" other)
  | "route.offered" => return ({ a with routeOffered := ← okOr bad (asBool value) }, d)
  | "route.gateway" =>
    let items ← okOr bad (asList value)
    return (← items.foldlM (addGateway path) { a with gateway := none, gateway6 := none }, d)
  | "route.metric" => return ({ a with routeMetric := some (← okOr bad (asU32 value)) }, d)
  | "mtu.offered" => return ({ a with mtuOffered := ← okOr bad (asBool value) }, d)
  | "mtu.value" =>
    let mtu ← okOr bad (asU32 value)
    if mtu < 68 then throw (.mtuBelowMinimum path mtu) else return ({ a with mtu := some mtu }, d)
  | "hostname.announce" => return ({ a with announceHostname := ← okOr bad (asBool value) }, d)
  | "hostname.offered" => return ({ a with acceptHostname := ← okOr bad (asBool value) }, d)
  | "dns.offered" => return (a, { d with offered := ← okOr bad (asBool value) })
  | "dns.servers" =>
    let items ← okOr bad (asList value)
    let servers ← items.mapM fun item => okOr (.badItem path "Dns.Servers" item) (parseIpAddr (trim item))
    return (a, { d with servers })
  | "dns.domains" => return (a, { d with domains := ← okOr bad (asList value) })
  | "dns.default" => return (a, { d with defaultRoute := some (← okOr bad (asBool value)) })
  | "dns.exclusive" => return (a, { d with exclusive := ← okOr bad (asBool value) })
  | _ => throw (.unknownValue path name)

/-- The family switch wins over statics outside the bundle's families. -/
def retainStatics (a : AddressConfig) : AddressConfig :=
  { a with
    statics := a.statics.filter fun s =>
      match s.address with
      | .v4 _ => a.ipv4
      | .v6 _ => a.ipv6 }

abbrev Values := SortedMap String RawValue

/-- The values of a profile, in the order of their names. -/
def parse (path : String) (values : Values) : Except ProfileError (AddressConfig × DnsConfig) := do
  let (a, d) ← values.entries.foldlM (setting path) ({}, {})
  return (retainStatics a, d)

/-! ## Inheritance -/

abbrev Profiles := SortedMap String Profile

def badKeyName (name : String) : Bool :=
  name.isEmpty || containsChar name '/' || containsChar name '\\'

def joinPath (parentPath name : String) : String :=
  if parentPath.isEmpty then name else parentPath ++ "/" ++ name

/-- One value of a key, over those inherited. -/
def takeValue (path : String) (state : Values × Bool) (entry : String × RawValue) :
    Except ProfileError (Values × Bool) :=
  let lower := toAsciiLowercase entry.1
  if lower = "enabled" then
    match asBool entry.2 with
    | some enabled => .ok (state.1, state.2 && enabled)
    | none => .error (.enabledShape path)
  else if lower ∈ vocabulary then .ok (state.1.insert lower entry.2, state.2)
  else .error (.unknownValue path entry.1)

mutual

/-- A key and everything under it. -/
def walk (parentPath : String) (inherited : Values) (parentEnabled : Bool) (out : Profiles) :
    RawKey → Except ProfileError Profiles
  | ⟨name, values, children⟩ => do
    if badKeyName name then throw (.badKeyName parentPath name)
    let path := joinPath parentPath name
    let (effective, enabled) ← values.foldlM (takeValue path) (inherited, parentEnabled)
    let (address, dns) ← parse path effective
    walkAll path effective enabled
      (out.insert (toAsciiLowercase path) { path, enabled, address, dns }) children

/-- Keys beside each other, in order. -/
def walkAll (path : String) (effective : Values) (enabled : Bool) (out : Profiles) :
    List RawKey → Except ProfileError Profiles
  | [] => return out
  | child :: rest => do
    let out ← walk path effective enabled out child
    walkAll path effective enabled out rest

end

/-- Every profile under the `Profiles` key, by its lower-cased path. -/
def resolve (root : RawKey) : Except ProfileError Profiles :=
  walkAll "" .empty true .empty root.children

end Netd.Model
