import Netd.Model.Core.Data

/-! # The control wire

`netd-core/src/lib.rs`: requests and replies as MessagePack maps. The MessagePack library is not part
of the repository and is taken as a parameter: what each call of its `Writer` appends, what a writer
hands over at the end, and what each call of its `Reader` makes of the octets that are left. Lengths
are cast to 32 bits as the source casts them.
-/

namespace Netd.Model.Wire

/-- Ceiling on one control message, payload only. -/
def maxMessageBytes : ℕ := 65536

/-! ## The codec -/

/-- One call of the writer. -/
inductive Token where
  | map (count : U32)
  | array (count : U32)
  | str (text : String)
  | uint (value : U64)
  | bool (value : Bool)
  | nil
deriving DecidableEq, Repr

/-- `peios::msgpack`, with errors of type `ε`. A reader is the octets it has not read; every call of it
returns what it read and leaves the rest. -/
structure Msgpack (ε : Type) where
  write : Token → Bytes
  toBytes : List Token → Option Bytes
  readMap : Bytes → Except ε (ℕ × Bytes)
  readArray : Bytes → Except ε (ℕ × Bytes)
  readStr : Bytes → Except ε (String × Bytes)
  readUint : Bytes → Except ε (U64 × Bytes)
  readBool : Bytes → Except ε (Bool × Bytes)
  readNil : Bytes → Except ε (Unit × Bytes)
  skip : Bytes → Except ε (Unit × Bytes)
  peekNil : Bytes → Bool

/-! ## Errors -/

/-- `std::io::ErrorKind`, as far as it is told apart. -/
inductive ErrorKind where
  | wouldBlock
  | interrupted
  | unexpectedEof
  | timedOut
  | invalidInput
  | invalidData
  | notConnected
  | other
deriving DecidableEq, Repr

inductive WireError (ε : Type) where
  | encoding (error : ε)
  | missing (field : String)
  | duplicate (field : String)
  | unknownQuery (query : String)
  | tooLarge (size : ℕ)
  | io (kind : ErrorKind)
deriving DecidableEq, Repr

/-- The texts of the errors that come from elsewhere, and the quoting of a string in a message. -/
structure Texts (ε : Type) where
  encoding : ε → String
  io : ErrorKind → String
  quoted : String → String

def WireError.display {ε : Type} (texts : Texts ε) : WireError ε → String
  | encoding e => "malformed message: " ++ texts.encoding e
  | missing k => "missing field " ++ k
  | duplicate k => "duplicate field " ++ k
  | unknownQuery q => "unknown query " ++ texts.quoted q
  | tooLarge n => "message of " ++ toString n ++ " bytes exceeds the ceiling"
  | io e => texts.io e

/-! ## Messages -/

/-- How far along an interface is towards being usable. -/
inductive Level where
  | absent
  | link
  | addressed
  | routed
deriving DecidableEq, Repr

namespace Level

def asStr : Level → String
  | absent => "absent"
  | link => "link"
  | addressed => "addressed"
  | routed => "routed"

def parse (text : String) : Option Level :=
  match text with
  | "absent" => some absent
  | "link" => some link
  | "addressed" => some addressed
  | "routed" => some routed
  | _ => none

/-- Levels are ordered as they are listed. -/
def rank : Level → ℕ
  | absent => 0
  | link => 1
  | addressed => 2
  | routed => 3

end Level

inductive Request where
  | status
  | renew (interface : String)
  | reconcile
  | subscribe
deriving DecidableEq, Repr

def networkQuery : U32 := 0x00000001

def networkControl : U32 := 0x00000002

/-- The right a request needs on the control object. -/
def Request.requiredRight : Request → U32
  | status | subscribe => networkQuery
  | renew _ | reconcile => networkControl

/-- A DHCP lease as reported. -/
structure LeaseStatus where
  server : String := ""
  expiresIn : U64 := 0
  state : String := ""
  duration : U64 := 0
  renewAt : U64 := 0
  rebindAt : U64 := 0
deriving DecidableEq, Repr

/-- One interface as reported. -/
structure InterfaceStatus where
  ifid : String := ""
  name : String := ""
  index : U32 := 0
  mac : String := ""
  path : String := ""
  driver : String := ""
  verdict : Option String := none
  rule : Option String := none
  profile : Option String := none
  network : Option String := none
  networkName : Option String := none
  networkTrust : Option String := none
  warning : Option String := none
  up : Bool := false
  carrier : Bool := false
  level : Level := .absent
  addresses : List String := []
  gateway : Option String := none
  gateway6 : Option String := none
  dns : List String := []
  search : List String := []
  lease : Option LeaseStatus := none
deriving DecidableEq, Repr

structure Status where
  hostname : String := ""
  level : Level := .absent
  refusal : Option String := none
  interfaces : List InterfaceStatus := []
deriving DecidableEq, Repr

/-- What one interface contributes to name resolution. -/
structure DnsScope where
  ifid : String := ""
  name : String := ""
  servers : List String := []
  domains : List String := []
  ntp : List String := []
  addresses : List String := []
  defaultRoute : Bool := false
  exclusive : Bool := false
  metric : U32 := 0
  level : Level := .absent
deriving DecidableEq, Repr

structure Snapshot where
  hostname : String := ""
  scopes : List DnsScope := []
deriving DecidableEq, Repr

inductive Reply where
  | ok
  | status (status : Status)
  | snapshot (snapshot : Snapshot)
  | error (message : String)
deriving DecidableEq, Repr

/-! ## Writing -/

/-- A length as the headers take it, `len() as u32`. -/
def count {α : Type} (items : List α) : U32 := BitVec.ofNat 32 items.length

def writeStrList (key : String) (items : List String) : List Token :=
  [.str key, .array (count items)] ++ items.map .str

def writeOptStr (key : String) (value : Option String) : List Token :=
  [.str key,
    match value with
    | some text => .str text
    | none => .nil]

def LeaseStatus.tokens (l : LeaseStatus) : List Token :=
  [.map 6, .str "server", .str l.server, .str "expires_in", .uint l.expiresIn, .str "state", .str l.state,
    .str "duration", .uint l.duration, .str "renew_at", .uint l.renewAt, .str "rebind_at", .uint l.rebindAt]

/-- `encode_interface`. -/
def InterfaceStatus.tokens (i : InterfaceStatus) : List Token :=
  [.map 22, .str "ifid", .str i.ifid, .str "name", .str i.name, .str "index", .uint (i.index.setWidth 64),
    .str "mac", .str i.mac, .str "path", .str i.path, .str "driver", .str i.driver] ++
    writeOptStr "verdict" i.verdict ++ writeOptStr "rule" i.rule ++ writeOptStr "profile" i.profile ++
    writeOptStr "network" i.network ++ writeOptStr "network_name" i.networkName ++
    writeOptStr "network_trust" i.networkTrust ++ writeOptStr "warning" i.warning ++
    [.str "up", .bool i.up, .str "carrier", .bool i.carrier, .str "level", .str i.level.asStr] ++
    writeStrList "addresses" i.addresses ++ writeOptStr "gateway" i.gateway ++
    writeOptStr "gateway6" i.gateway6 ++ writeStrList "dns" i.dns ++ writeStrList "search" i.search ++
    [.str "lease"] ++
    match i.lease with
    | none => [.nil]
    | some l => l.tokens

def DnsScope.tokens (s : DnsScope) : List Token :=
  [.map 10, .str "ifid", .str s.ifid, .str "name", .str s.name] ++ writeStrList "servers" s.servers ++
    writeStrList "domains" s.domains ++ writeStrList "ntp" s.ntp ++ writeStrList "addresses" s.addresses ++
    [.str "default_route", .bool s.defaultRoute, .str "exclusive", .bool s.exclusive, .str "metric",
      .uint (s.metric.setWidth 64), .str "level", .str s.level.asStr]

namespace Request

def tokens : Request → List Token
  | status => [.map 1, .str "query", .str "status"]
  | renew interface => [.map 2, .str "query", .str "renew", .str "interface", .str interface]
  | reconcile => [.map 1, .str "query", .str "reconcile"]
  | subscribe => [.map 1, .str "query", .str "subscribe"]

end Request

namespace Reply

def tokens : Reply → List Token
  | ok => [.map 1, .str "ok", .bool true]
  | error message => [.map 2, .str "ok", .bool false, .str "error", .str message]
  | snapshot s =>
    [.map 4, .str "ok", .bool true, .str "kind", .str "snapshot", .str "hostname", .str s.hostname,
      .str "scopes", .array (count s.scopes)] ++ s.scopes.flatMap DnsScope.tokens
  | status s =>
    [.map 5, .str "ok", .bool true, .str "hostname", .str s.hostname, .str "level", .str s.level.asStr] ++
      writeOptStr "refusal" s.refusal ++ [.str "interfaces", .array (count s.interfaces)] ++
      s.interfaces.flatMap InterfaceStatus.tokens

end Reply

variable {ε : Type} (codec : Msgpack ε)

/-- The octets of a request. A writer that refuses what it was given stops the program, as `expect`
does; there is nothing to say of that case. -/
def Request.encode (request : Request) : Bytes := (codec.toBytes request.tokens).getD []

/-- The octets of a reply. -/
def Reply.encode (reply : Reply) : Bytes := (codec.toBytes reply.tokens).getD []

/-! ## Reading -/

/-- A computation over what a reader has left. -/
abbrev Read (ε α : Type) := StateT Bytes (Except (WireError ε)) α

/-- A call of the reader, its errors made the wire's. -/
def call {α : Type} (f : Bytes → Except ε (α × Bytes)) : Read ε α := fun octets =>
  match f octets with
  | .ok read => .ok read
  | .error e => .error (.encoding e)

/-- `for _ in 0..n`, gathering what each round pushes. -/
def repeated {α : Type} (round : Read ε α) : ℕ → Read ε (List α)
  | 0 => pure []
  | n + 1 => do
    let first ← round
    let rest ← repeated round n
    return first :: rest

/-- Walk the fields that are left of a map. Duplicate keys are a protocol error. -/
def fieldsFrom {σ : Type} (field : σ → String → Read ε σ) : ℕ → List String → σ → Read ε σ
  | 0, _, acc => pure acc
  | n + 1, seen, acc => do
    let key ← call codec.readStr
    if key ∈ seen then throw (.duplicate key)
    let acc ← field acc key
    fieldsFrom field n (seen ++ [key]) acc

def forEachField {σ : Type} (field : σ → String → Read ε σ) (acc : σ) : Read ε σ := do
  let n ← call codec.readMap
  fieldsFrom codec field n [] acc

/-- A count past what is left in the message is a lie. -/
def readStrList : Read ε (List String) := do
  let n ← call codec.readArray
  if n > (← get).length then throw (.tooLarge n)
  repeated (call codec.readStr) n

def readOptStr : Read ε (Option String) := do
  if codec.peekNil (← get) then
    call codec.readNil
    return none
  else return some (← call codec.readStr)

/-- A level that nobody knows is none. -/
def readLevel : Read ε Level := do return (Level.parse (← call codec.readStr)).getD .absent

/-- `read_uint()? as u32`. -/
def readU32 : Read ε U32 := do return (← call codec.readUint).setWidth 32

def LeaseStatus.field (l : LeaseStatus) (key : String) : Read ε LeaseStatus :=
  match key with
  | "server" => do return { l with server := ← call codec.readStr }
  | "expires_in" => do return { l with expiresIn := ← call codec.readUint }
  | "state" => do return { l with state := ← call codec.readStr }
  | "duration" => do return { l with duration := ← call codec.readUint }
  | "renew_at" => do return { l with renewAt := ← call codec.readUint }
  | "rebind_at" => do return { l with rebindAt := ← call codec.readUint }
  | _ => do
    call codec.skip
    return l

/-- A lease, where there is one; otherwise the reader is at a nil. -/
def readLease (was : Option LeaseStatus) : Read ε (Option LeaseStatus) := do
  if codec.peekNil (← get) then
    call codec.readNil
    return was
  else return some (← forEachField codec (LeaseStatus.field codec) {})

def InterfaceStatus.field (i : InterfaceStatus) (key : String) : Read ε InterfaceStatus :=
  match key with
  | "ifid" => do return { i with ifid := ← call codec.readStr }
  | "name" => do return { i with name := ← call codec.readStr }
  | "index" => do return { i with index := ← readU32 codec }
  | "mac" => do return { i with mac := ← call codec.readStr }
  | "path" => do return { i with path := ← call codec.readStr }
  | "driver" => do return { i with driver := ← call codec.readStr }
  | "verdict" => do return { i with verdict := ← readOptStr codec }
  | "rule" => do return { i with rule := ← readOptStr codec }
  | "profile" => do return { i with profile := ← readOptStr codec }
  | "network" => do return { i with network := ← readOptStr codec }
  | "network_name" => do return { i with networkName := ← readOptStr codec }
  | "network_trust" => do return { i with networkTrust := ← readOptStr codec }
  | "warning" => do return { i with warning := ← readOptStr codec }
  | "up" => do return { i with up := ← call codec.readBool }
  | "carrier" => do return { i with carrier := ← call codec.readBool }
  | "level" => do return { i with level := ← readLevel codec }
  | "addresses" => do return { i with addresses := ← readStrList codec }
  | "gateway" => do return { i with gateway := ← readOptStr codec }
  | "gateway6" => do return { i with gateway6 := ← readOptStr codec }
  | "dns" => do return { i with dns := ← readStrList codec }
  | "search" => do return { i with search := ← readStrList codec }
  | "lease" => do return { i with lease := ← readLease codec i.lease }
  | _ => do
    call codec.skip
    return i

def decodeInterface : Read ε InterfaceStatus := forEachField codec (InterfaceStatus.field codec) {}

def DnsScope.field (s : DnsScope) (key : String) : Read ε DnsScope :=
  match key with
  | "ifid" => do return { s with ifid := ← call codec.readStr }
  | "name" => do return { s with name := ← call codec.readStr }
  | "servers" => do return { s with servers := ← readStrList codec }
  | "domains" => do return { s with domains := ← readStrList codec }
  | "ntp" => do return { s with ntp := ← readStrList codec }
  | "addresses" => do return { s with addresses := ← readStrList codec }
  | "default_route" => do return { s with defaultRoute := ← call codec.readBool }
  | "exclusive" => do return { s with exclusive := ← call codec.readBool }
  | "metric" => do return { s with metric := ← readU32 codec }
  | "level" => do return { s with level := ← readLevel codec }
  | _ => do
    call codec.skip
    return s

def decodeScope : Read ε DnsScope := forEachField codec (DnsScope.field codec) {}

/-- What `Request::decode` gathers. -/
structure RequestParts where
  query : Option String := none
  interface : Option String := none

def RequestParts.field (p : RequestParts) (key : String) : Read ε RequestParts :=
  match key with
  | "query" => do return { p with query := some (← call codec.readStr) }
  | "interface" => do return { p with interface := some (← call codec.readStr) }
  | _ => do
    call codec.skip
    return p

def RequestParts.request (p : RequestParts) : Except (WireError ε) Request :=
  match p.query with
  | some "status" => .ok .status
  | some "reconcile" => .ok .reconcile
  | some "subscribe" => .ok .subscribe
  | some "renew" =>
    match p.interface with
    | some interface => .ok (.renew interface)
    | none => .error (.missing "interface")
  | some other => .error (.unknownQuery other)
  | none => .error (.missing "query")

def Request.decode (octets : Bytes) : Except (WireError ε) Request := do
  let (parts, _) ← (forEachField codec (RequestParts.field codec) {}).run octets
  parts.request

/-- What `Reply::decode` gathers. -/
structure ReplyParts where
  ok : Option Bool := none
  error : Option String := none
  kind : Option String := none
  status : Status := {}
  hasStatus : Bool := false
  snapshot : Snapshot := {}

def ReplyParts.field (p : ReplyParts) (key : String) : Read ε ReplyParts :=
  match key with
  | "ok" => do return { p with ok := some (← call codec.readBool) }
  | "error" => do return { p with error := some (← call codec.readStr) }
  | "kind" => do return { p with kind := some (← call codec.readStr) }
  | "scopes" => do
    let n ← call codec.readArray
    let scopes ← repeated (decodeScope codec) n
    return { p with snapshot := { p.snapshot with scopes := p.snapshot.scopes ++ scopes } }
  | "hostname" => do
    let hostname ← call codec.readStr
    return { p with
      status := { p.status with hostname }
      snapshot := { p.snapshot with hostname }
      hasStatus := true }
  | "level" => do
    let level ← readLevel codec
    return { p with status := { p.status with level }, hasStatus := true }
  | "refusal" => do
    let refusal ← readOptStr codec
    return { p with status := { p.status with refusal }, hasStatus := true }
  | "interfaces" => do
    let n ← call codec.readArray
    let interfaces ← repeated (decodeInterface codec) n
    return { p with
      status := { p.status with interfaces := p.status.interfaces ++ interfaces }
      hasStatus := true }
  | _ => do
    call codec.skip
    return p

def ReplyParts.reply (p : ReplyParts) : Except (WireError ε) Reply :=
  match p.ok with
  | some true =>
    if p.kind = some "snapshot" then .ok (.snapshot p.snapshot)
    else if p.hasStatus then .ok (.status p.status)
    else .ok .ok
  | some false => .ok (.error (p.error.getD "unspecified error"))
  | none => .error (.missing "ok")

def Reply.decode (octets : Bytes) : Except (WireError ε) Reply := do
  let (parts, _) ← (forEachField codec (ReplyParts.field codec) {}).run octets
  parts.reply

/-! ## Frames -/

/-- The octets of a number, least significant first. -/
def toLeBytes {w : ℕ} (number : ℕ) (value : BitVec w) : Bytes := (toBeBytes number value).reverse

/-- The number that octets spell, least significant first. -/
def fromLeBytes {w : ℕ} (octets : Bytes) : BitVec w := fromBeBytes octets.reverse

/-- A payload behind its length, `len() as u32`. -/
def frame (payload : Bytes) : Bytes := toLeBytes 4 (count payload) ++ payload

/-- The length a header announces. -/
def announced (octets : Bytes) : ℕ := (fromLeBytes (octets.take 4) : U32).toNat

/-- One message from a stream. An oversized length is refused before its payload is read. -/
def recv (stream : Bytes) : Except (WireError ε) (Bytes × Bytes) :=
  if stream.length < 4 then .error (.io .unexpectedEof)
  else if announced stream > maxMessageBytes then .error (.tooLarge (announced stream))
  else if stream.length < 4 + announced stream then .error (.io .unexpectedEof)
  else .ok ((stream.drop 4).take (announced stream), stream.drop (4 + announced stream))

end Netd.Model.Wire
