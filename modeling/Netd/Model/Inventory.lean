import Netd.Machine.Stateful
import Netd.Machine.Transducer
import Netd.Model.Networks
import Netd.Model.Registry
import Netd.Model.Wire

/-! # What netd writes back to the registry

`netd/src/inventory.rs`: `Status` keys below `Interfaces` and `Networks`, which are netd's, and the values
that netd shares with the operator. The registry is a parameter: its calls on a state of its own, each of
which can fail. A key is known by the names that lead to it.
-/

namespace Netd.Model.Inventory

open Networks (Signals hexOctet)
open Registry (RegValue parseHex untilNul)

abbrev Path := List String

/-- What `Key::create` did. -/
inductive Disposition where
  | createdNew
  | openedExisting
deriving DecidableEq, Repr

/-- The calls of the registry; one that fails answers `none` or `false`. -/
structure Hive (σ : Type) where
  create : Path → StateM σ (Option Disposition)
  setSecurity : Path → String → StateM σ Bool
  queryValue : Path → String → StateM σ (Option RegValue)
  setValue : Path → String → RegValue → StateM σ Bool
  deleteValue : Path → String → StateM σ Bool

/-- `netd_core::NETWORK_KEY`, opened without a parent. -/
def networkKeyName : String := "Machine\\System\\Network"

/-- Only SYSTEM writes a `Status` key; everyone reads it. -/
def statusSddl : String := "O:SYG:SYD:P(A;;KA;;;SY)(A;;KR;;;WD)"

/-- `format_hex` and `format_mac`. -/
def formatHex (octets : Bytes) : String := ":".intercalate (octets.map hexOctet)

def formatMac (mac : Mac) : String := formatHex (toBeBytes 6 mac)

/-- The data of a value of many texts. -/
def multiData (values : List String) : Bytes := (values.flatMap fun value => asBytes value ++ [0]) ++ [0]

/-- Everything an interface says about itself. -/
structure InterfaceRecord where
  ifid : String
  link : Link
  identity : Identity
  verdict : Option String
  rule : Option String
  profile : Option String
  readiness : Option Wire.Level
  network : Option String
deriving DecidableEq, Repr

/-- What the operator wrote on a network record. -/
structure Record extends NetworkRecord where
  requestedAddress : Option Ipv4Addr
deriving DecidableEq, Repr

/-- What a value of a `Status` key is to be: a text, which may be none, or many. -/
inductive Entry where
  | sz (value : Option String)
  | multi (values : List String)
deriving DecidableEq, Repr

/-- A text that is not empty. -/
def nonEmpty (text : String) : Option String := if text.isEmpty then none else some text

/-- The values of an interface's `Status`, in the order they are written. -/
def InterfaceRecord.entries (record : InterfaceRecord) : List (String × Entry) :=
  [("Name", .sz (some record.link.name)),
    ("Kind", .sz (some record.link.kind.asStr)),
    ("Mac", .sz (record.link.mac.map formatMac)),
    ("Path", .sz (nonEmpty record.identity.path)),
    ("Driver", .sz (nonEmpty record.identity.driver)),
    ("Verdict", .sz record.verdict),
    ("Rule", .sz record.rule),
    ("Profile", .sz record.profile),
    ("Readiness", .sz (record.readiness.map Wire.Level.asStr)),
    ("Network", .sz record.network)]

def displaySubnet {α : Type} (display : α → String) (subnet : α × U8) : String :=
  display subnet.1 ++ "/" ++ toString subnet.2.toNat

def networkPrefixes (signals : Signals) : List String :=
  (signals.subnet.map (displaySubnet Ipv4Addr.display)).toList ++
    signals.prefixes6.map (displaySubnet Ipv6Addr.display)

/-- The values of a network's `Status`, in the order they are written. -/
def networkEntries (signals : Signals) (lastInterface : String) (nowSecs : ℤ) : List (String × Entry) :=
  [("Kind", .sz (some signals.kind)),
    ("Server", .sz (signals.server.map Ipv4Addr.display)),
    ("Gateway", .sz (signals.gateway.map Ipv4Addr.display)),
    ("Router", .sz (signals.router6.map Ipv6Addr.display)),
    ("Prefixes", .multi (networkPrefixes signals)),
    ("DnsServers", .multi (signals.dns.map IpAddr.display)),
    ("LastSeen", .sz (some (toString nowSecs))),
    ("LastInterface", .sz (some lastInterface))]

section Calls

variable {σ : Type} (hive : Hive σ)

/-! ## Keys -/

def openOrCreate (parent : Option Path) (name : String) : StateM σ (Option (Path × Disposition)) := do
  let path := (parent.getD []) ++ [name]
  return (← hive.create path).map fun disposition => (path, disposition)

/-- The `Status` key below a key: protected the first time, opened afterwards. -/
def statusKey (parent : Path) : StateM σ (Option Path) := do
  match ← openOrCreate hive (some parent) "Status" with
  | some (key, .createdNew) =>
    let _ ← hive.setSecurity key statusSddl
    return some key
  | some (key, .openedExisting) => return some key
  | none => return none

def networkKey : StateM σ (Option Path) := do
  return (← openOrCreate hive none networkKeyName).map Prod.fst

/-- A key two levels below the network key; every ancestor is opened or made in turn. -/
def entryKey (group name : String) : StateM σ (Option Path) := do
  match ← networkKey hive with
  | none => return none
  | some network =>
    match ← openOrCreate hive (some network) group with
    | none => return none
    | some (parent, _) => return (← openOrCreate hive (some parent) name).map Prod.fst

def interfaceKey (ifid : String) : StateM σ (Option Path) := entryKey hive "Interfaces" ifid

def networksKey (id : String) : StateM σ (Option Path) := entryKey hive "Networks" id

/-! ## Values -/

def current (key : Path) (name : String) : StateM σ (Option String) := do
  return (← hive.queryValue key name).bind fun value => fromUtf8 (untilNul value.data)

def setSz (key : Path) (name value : String) : StateM σ Unit := do
  if (← current hive key name) = some value then return ()
  else
    let _ ← hive.setValue key name ⟨.sz, asBytes value ++ [0]⟩

def setMulti (key : Path) (name : String) (values : List String) : StateM σ Unit := do
  let wanted : RegValue := ⟨.multiSz, multiData values⟩
  if (← hive.queryValue key name) = some wanted then return ()
  else
    let _ ← hive.setValue key name wanted

/-- A fact that no longer holds is removed. -/
def setOptSz (key : Path) (name : String) (value : Option String) : StateM σ Unit := do
  match value with
  | some value => setSz hive key name value
  | none =>
    if (← current hive key name).isSome then
      let _ ← hive.deleteValue key name

def setEntry (key : Path) (entry : String × Entry) : StateM σ Unit :=
  match entry.2 with
  | .sz value => setOptSz hive key entry.1 value
  | .multi values => setMulti hive key entry.1 values

/-! ## The operations -/

/-- `LastNetwork` is sticky: it survives the carrier going and netd restarting. -/
def sync (record : InterfaceRecord) : StateM σ Unit := do
  match ← interfaceKey hive record.ifid with
  | none => return ()
  | some key =>
    match ← statusKey hive key with
    | none => return ()
    | some status =>
      record.entries.forM (setEntry hive status)
      match record.network with
      | none => return ()
      | some network => setSz hive status "LastNetwork" network

/-- The interface's DHCPv4 client identifier: the operator's if written, else the generated one, written
back where the key could be opened. -/
def clientId (ifid : String) (generated : Bytes) : StateM σ Bytes := do
  match ← interfaceKey hive ifid with
  | none => return generated
  | some key =>
    match (← current hive key "ClientId").bind parseHex with
    | some id => return id
    | none =>
      setSz hive key "ClientId" (formatHex generated)
      return generated

/-- The network last seen on an interface. -/
def lastNetwork (ifid : String) : StateM σ (Option String) := do
  match ← interfaceKey hive ifid with
  | none => return none
  | some key =>
    match ← statusKey hive key with
    | none => return none
    | some status => return (← current hive status "LastNetwork").bind nonEmpty

/-- The machine's DUID: the registry's, else the generated one, written back. -/
def duid (configured : Option Bytes) (generated : Bytes) : StateM σ Bytes := do
  match configured with
  | some duid => return duid
  | none =>
    match ← networkKey hive with
    | none => return generated
    | some network =>
      setSz hive network "Duid" (formatHex generated)
      return generated

def machineReadiness (level : Wire.Level) : StateM σ Unit := do
  match ← networkKey hive with
  | none => return ()
  | some network => setSz hive network "Readiness" level.asStr

/-- Create or refresh a network record, and read back what the operator wrote on it. -/
def networkSync (id : String) (signals : Signals) (lastInterface : String) (nowSecs : ℤ) : StateM σ Record := do
  match ← networksKey hive id with
  | none => return ⟨⟨id, none, none⟩, none⟩
  | some key =>
    let name := (← current hive key "Name").bind nonEmpty
    let trust := (← current hive key "Trust").bind nonEmpty
    let requestedAddress := (← current hive key "RequestedAddress").bind parseIpv4Addr
    match ← statusKey hive key with
    | none => return ⟨⟨id, name, trust⟩, requestedAddress⟩
    | some status =>
      (networkEntries signals lastInterface nowSecs).forM (setEntry hive status)
      return ⟨⟨id, name, trust⟩, requestedAddress⟩

/-- The address to ask a network for next. -/
def requestedAddress (id : String) : StateM σ (Option Ipv4Addr) := do
  match ← networksKey hive id with
  | none => return none
  | some key => return (← current hive key "RequestedAddress").bind parseIpv4Addr

/-- Remember the leased address on the network for the next request. -/
def setRequestedAddress (id : String) (address : Ipv4Addr) : StateM σ Unit := do
  match ← networksKey hive id with
  | none => return ()
  | some key => setSz hive key "RequestedAddress" (Ipv4Addr.display address)

end Calls

/-! ## Runs -/

inductive Op where
  | sync (record : InterfaceRecord)
  | clientId (ifid : String) (generated : Bytes)
  | lastNetwork (ifid : String)
  | duid (configured : Option Bytes) (generated : Bytes)
  | machineReadiness (level : Wire.Level)
  | networkSync (id : String) (signals : Signals) (lastInterface : String) (nowSecs : ℤ)
  | requestedAddress (id : String)
  | setRequestedAddress (id : String) (address : Ipv4Addr)
deriving DecidableEq, Repr

inductive Answer where
  | done
  | octets (octets : Bytes)
  | network (id : Option String)
  | record (record : Record)
  | address (address : Option Ipv4Addr)
deriving DecidableEq, Repr

section Runs

variable {σ : Type} (hive : Hive σ)

def perform : Op → StateM σ Answer
  | .sync record => (fun _ => .done) <$> sync hive record
  | .clientId ifid generated => .octets <$> clientId hive ifid generated
  | .lastNetwork ifid => .network <$> lastNetwork hive ifid
  | .duid configured generated => .octets <$> duid hive configured generated
  | .machineReadiness level => (fun _ => .done) <$> machineReadiness hive level
  | .networkSync id signals lastInterface nowSecs => .record <$> networkSync hive id signals lastInterface nowSecs
  | .requestedAddress id => .address <$> requestedAddress hive id
  | .setRequestedAddress id address => (fun _ => .done) <$> setRequestedAddress hive id address

/-- One operation after another. -/
def machine : Transducer σ Op Answer where
  step s op := (((perform hive op).run s).2, ((perform hive op).run s).1)

end Runs

end Netd.Model.Inventory
