import Netd.Proofs.Wire.Documents

/-! # The records of the wire

What each field of a record may hold and what it sets. Every reader follows its table, so a record is
read from its fields in any order, and from maps with fields that nobody knows.
-/

namespace Netd.Model.Wire

/-- A document that is a record: a map with no key twice, whose fields make up the record. -/
def Doc.Holds {σ : Type} (fields : Fields String Doc σ) (empty : σ) (d : Doc) (record : σ) : Prop :=
  ∃ content, d = .map content ∧ (content.map Prod.fst).Nodup ∧ fields.Gathers empty content record

/-! ## Tables -/

namespace LeaseStatus

def keys : List String := ["server", "expires_in", "state", "duration", "renew_at", "rebind_at"]

inductive Sets : String → Doc → (LeaseStatus → LeaseStatus) → Prop
  | server (text : String) : Sets "server" (.str text) fun l => { l with server := text }
  | expiresIn (value : U64) : Sets "expires_in" (.uint value) fun l => { l with expiresIn := value }
  | state (text : String) : Sets "state" (.str text) fun l => { l with state := text }
  | duration (value : U64) : Sets "duration" (.uint value) fun l => { l with duration := value }
  | renewAt (value : U64) : Sets "renew_at" (.uint value) fun l => { l with renewAt := value }
  | rebindAt (value : U64) : Sets "rebind_at" (.uint value) fun l => { l with rebindAt := value }
  | unknown {key : String} (value : Doc) (other : key ∉ keys) : Sets key value id

/-- The table of a lease's fields. -/
def fields : Fields String Doc LeaseStatus where
  sets := Sets
  commute first second different _ := by
    cases first <;> cases second <;> first | rfl | exact absurd rfl different

end LeaseStatus

namespace InterfaceStatus

def keys : List String :=
  ["ifid", "name", "index", "mac", "path", "driver", "verdict", "rule", "profile", "network", "network_name",
    "network_trust", "warning", "up", "carrier", "level", "addresses", "gateway", "gateway6", "dns", "search", "lease"]

inductive Sets : String → Doc → (InterfaceStatus → InterfaceStatus) → Prop
  | ifid (text : String) : Sets "ifid" (.str text) fun i => { i with ifid := text }
  | name (text : String) : Sets "name" (.str text) fun i => { i with name := text }
  | index (value : U64) : Sets "index" (.uint value) fun i => { i with index := value.setWidth 32 }
  | mac (text : String) : Sets "mac" (.str text) fun i => { i with mac := text }
  | path (text : String) : Sets "path" (.str text) fun i => { i with path := text }
  | driver (text : String) : Sets "driver" (.str text) fun i => { i with driver := text }
  | verdict (value : Option String) : Sets "verdict" (.optStr value) fun i => { i with verdict := value }
  | rule (value : Option String) : Sets "rule" (.optStr value) fun i => { i with rule := value }
  | profile (value : Option String) : Sets "profile" (.optStr value) fun i => { i with profile := value }
  | network (value : Option String) : Sets "network" (.optStr value) fun i => { i with network := value }
  | networkName (value : Option String) : Sets "network_name" (.optStr value) fun i => { i with networkName := value }
  | networkTrust (value : Option String) :
      Sets "network_trust" (.optStr value) fun i => { i with networkTrust := value }
  | warning (value : Option String) : Sets "warning" (.optStr value) fun i => { i with warning := value }
  | up (value : Bool) : Sets "up" (.bool value) fun i => { i with up := value }
  | carrier (value : Bool) : Sets "carrier" (.bool value) fun i => { i with carrier := value }
  | level (text : String) : Sets "level" (.str text) fun i => { i with level := (Level.parse text).getD .absent }
  | addresses (texts : List String) :
      Sets "addresses" (.array (texts.map .str)) fun i => { i with addresses := texts }
  | gateway (value : Option String) : Sets "gateway" (.optStr value) fun i => { i with gateway := value }
  | gateway6 (value : Option String) : Sets "gateway6" (.optStr value) fun i => { i with gateway6 := value }
  | dns (texts : List String) : Sets "dns" (.array (texts.map .str)) fun i => { i with dns := texts }
  | search (texts : List String) : Sets "search" (.array (texts.map .str)) fun i => { i with search := texts }
  | lease {d : Doc} {l : LeaseStatus} (holds : d.Holds LeaseStatus.fields {} l) :
      Sets "lease" d fun i => { i with lease := some l }
  | noLease : Sets "lease" .nil id
  | unknown {key : String} (value : Doc) (other : key ∉ keys) : Sets key value id

/-- The table of an interface's fields. -/
def fields : Fields String Doc InterfaceStatus where
  sets := Sets
  commute first second different _ := by
    cases first <;> cases second <;> first | rfl | exact absurd rfl different

end InterfaceStatus

namespace DnsScope

def keys : List String :=
  ["ifid", "name", "servers", "domains", "ntp", "addresses", "default_route", "exclusive", "metric", "level"]

inductive Sets : String → Doc → (DnsScope → DnsScope) → Prop
  | ifid (text : String) : Sets "ifid" (.str text) fun s => { s with ifid := text }
  | name (text : String) : Sets "name" (.str text) fun s => { s with name := text }
  | servers (texts : List String) : Sets "servers" (.array (texts.map .str)) fun s => { s with servers := texts }
  | domains (texts : List String) : Sets "domains" (.array (texts.map .str)) fun s => { s with domains := texts }
  | ntp (texts : List String) : Sets "ntp" (.array (texts.map .str)) fun s => { s with ntp := texts }
  | addresses (texts : List String) :
      Sets "addresses" (.array (texts.map .str)) fun s => { s with addresses := texts }
  | defaultRoute (value : Bool) : Sets "default_route" (.bool value) fun s => { s with defaultRoute := value }
  | exclusive (value : Bool) : Sets "exclusive" (.bool value) fun s => { s with exclusive := value }
  | metric (value : U64) : Sets "metric" (.uint value) fun s => { s with metric := value.setWidth 32 }
  | level (text : String) : Sets "level" (.str text) fun s => { s with level := (Level.parse text).getD .absent }
  | unknown {key : String} (value : Doc) (other : key ∉ keys) : Sets key value id

/-- The table of a scope's fields. -/
def fields : Fields String Doc DnsScope where
  sets := Sets
  commute first second different _ := by
    cases first <;> cases second <;> first | rfl | exact absurd rfl different

end DnsScope

namespace RequestParts

def keys : List String := ["query", "interface"]

inductive Sets : String → Doc → (RequestParts → RequestParts) → Prop
  | query (text : String) : Sets "query" (.str text) fun p => { p with query := some text }
  | interface (text : String) : Sets "interface" (.str text) fun p => { p with interface := some text }
  | unknown {key : String} (value : Doc) (other : key ∉ keys) : Sets key value id

/-- The table of a request's fields. -/
def fields : Fields String Doc RequestParts where
  sets := Sets
  commute first second different _ := by
    cases first <;> cases second <;> first | rfl | exact absurd rfl different

end RequestParts

namespace ReplyParts

def keys : List String := ["ok", "error", "kind", "scopes", "hostname", "level", "refusal", "interfaces"]

inductive Sets : String → Doc → (ReplyParts → ReplyParts) → Prop
  | ok (value : Bool) : Sets "ok" (.bool value) fun p => { p with ok := some value }
  | error (text : String) : Sets "error" (.str text) fun p => { p with error := some text }
  | kind (text : String) : Sets "kind" (.str text) fun p => { p with kind := some text }
  | scopes {items : List Doc} {scopes : List DnsScope}
      (each : List.Forall₂ (Doc.Holds DnsScope.fields {}) items scopes) :
      Sets "scopes" (.array items) fun p =>
        { p with snapshot := { p.snapshot with scopes := p.snapshot.scopes ++ scopes } }
  | hostname (text : String) : Sets "hostname" (.str text) fun p =>
      { p with
        status := { p.status with hostname := text }
        snapshot := { p.snapshot with hostname := text }
        hasStatus := true }
  | level (text : String) : Sets "level" (.str text) fun p =>
      { p with
        status := { p.status with level := (Level.parse text).getD .absent }
        hasStatus := true }
  | refusal (value : Option String) : Sets "refusal" (.optStr value) fun p =>
      { p with
        status := { p.status with refusal := value }
        hasStatus := true }
  | interfaces {items : List Doc} {interfaces : List InterfaceStatus}
      (each : List.Forall₂ (Doc.Holds InterfaceStatus.fields {}) items interfaces) :
      Sets "interfaces" (.array items) fun p =>
        { p with
          status := { p.status with interfaces := p.status.interfaces ++ interfaces }
          hasStatus := true }
  | unknown {key : String} (value : Doc) (other : key ∉ keys) : Sets key value id

/-- The table of a reply's fields. -/
def fields : Fields String Doc ReplyParts where
  sets := Sets
  commute first second different _ := by
    cases first <;> cases second <;> first | rfl | exact absurd rfl different

end ReplyParts

/-! ## Readers -/

section Readers

variable {ε : Type} {codec : Msgpack ε} {Text : String → Prop} (lawful : codec.Lawful Text)

include lawful

/-- A record is read by a reader that follows the table. -/
theorem Doc.Holds.reads {σ : Type} {fields : Fields String Doc σ} {field : σ → String → Read ε σ}
    (law : ∀ {key d effect}, fields.sets key d effect → d.Fits Text →
      ∀ record, Reads (field record key) (codec.octets d.tokens) (.ok (effect record)))
    {empty record : σ} {d : Doc} (holds : d.Holds fields empty record) (fits : d.Fits Text) :
    Reads (forEachField codec field empty) (codec.octets d.tokens) (.ok record) := by
  obtain ⟨content, rfl, distinct, gathers⟩ := holds
  exact reads_forEachField lawful law gathers fits distinct

/-- So are several, one after another. -/
theorem Doc.reads_holds {σ : Type} {fields : Fields String Doc σ} {field : σ → String → Read ε σ}
    (law : ∀ {key d effect}, fields.sets key d effect → d.Fits Text →
      ∀ record, Reads (field record key) (codec.octets d.tokens) (.ok (effect record)))
    {empty : σ} {items : List Doc} {records : List σ} (each : List.Forall₂ (Doc.Holds fields empty) items records)
    (fits : Doc.ItemsFit Text items) :
    List.Forall₂ (fun d record => Reads (forEachField codec field empty) (codec.octets d.tokens) (.ok record)) items
      records := by
  induction each with
  | nil => exact .nil
  | cons holds _ ih => exact .cons (holds.reads lawful law fits.1) (ih fits.2)

theorem LeaseStatus.reads_field {key : String} {d : Doc} {effect : LeaseStatus → LeaseStatus}
    (sets : LeaseStatus.fields.sets key d effect) (fits : d.Fits Text) (l : LeaseStatus) :
    Reads (LeaseStatus.field codec l key) (codec.octets d.tokens) (.ok (effect l)) := by
  cases sets with
  | server text => exact (reads_str lawful fits).map _
  | expiresIn value => exact (reads_uint lawful value).map _
  | state text => exact (reads_str lawful fits).map _
  | duration value => exact (reads_uint lawful value).map _
  | renewAt value => exact (reads_uint lawful value).map _
  | rebindAt value => exact (reads_uint lawful value).map _
  | unknown value other =>
    have skips : LeaseStatus.field codec l key = (do
        call codec.skip
        return l) := by
      unfold LeaseStatus.field
      split <;> first | rfl | exact absurd (by decide) other
    rw [skips]
    exact (reads_skip lawful fits).map fun _ => l

/-- A map is no nil. -/
theorem reads_readLease {content : List (String × Doc)} {result : Except (WireError ε) LeaseStatus}
    (fits : (Doc.map content).Fits Text)
    (reads : Reads (forEachField codec (LeaseStatus.field codec) {}) (codec.octets (Doc.map content).tokens) result)
    (was : Option LeaseStatus) :
    Reads (readLease codec was) (codec.octets (Doc.map content).tokens) (result.map some) := by
  apply Reads.look
  intro rest
  have read : Reads (do return some (← forEachField codec (LeaseStatus.field codec) {}))
      (codec.octets (Doc.map content).tokens) (result.map some) := by
    cases result with
    | ok l => exact reads.map some
    | error e => exact reads.bind_error
  rw [peekNil_tokens lawful fits, if_neg (by simp [Doc.tokens])]
  exact read rest

theorem reads_noLease (was : Option LeaseStatus) :
    Reads (readLease codec was) (codec.octets Doc.nil.tokens) (.ok was) := by
  apply Reads.look
  intro rest
  have fits : Doc.nil.Fits Text := trivial
  rw [peekNil_tokens lawful fits]
  exact (reads_nil lawful).map (fun _ => was) rest

theorem InterfaceStatus.reads_field {key : String} {d : Doc} {effect : InterfaceStatus → InterfaceStatus}
    (sets : InterfaceStatus.fields.sets key d effect) (fits : d.Fits Text) (i : InterfaceStatus) :
    Reads (InterfaceStatus.field codec i key) (codec.octets d.tokens) (.ok (effect i)) := by
  cases sets with
  | ifid text => exact (reads_str lawful fits).map _
  | name text => exact (reads_str lawful fits).map _
  | index value => exact (reads_u32 lawful value).map _
  | mac text => exact (reads_str lawful fits).map _
  | path text => exact (reads_str lawful fits).map _
  | driver text => exact (reads_str lawful fits).map _
  | verdict value => exact (reads_optStr lawful fits).map _
  | rule value => exact (reads_optStr lawful fits).map _
  | profile value => exact (reads_optStr lawful fits).map _
  | network value => exact (reads_optStr lawful fits).map _
  | networkName value => exact (reads_optStr lawful fits).map _
  | networkTrust value => exact (reads_optStr lawful fits).map _
  | warning value => exact (reads_optStr lawful fits).map _
  | up value => exact (reads_bool lawful value).map _
  | carrier value => exact (reads_bool lawful value).map _
  | level text => exact (reads_level lawful fits).map _
  | addresses texts => exact (reads_strList lawful fits).map _
  | gateway value => exact (reads_optStr lawful fits).map _
  | gateway6 value => exact (reads_optStr lawful fits).map _
  | dns texts => exact (reads_strList lawful fits).map _
  | search texts => exact (reads_strList lawful fits).map _
  | lease holds =>
    have reads := holds.reads lawful (LeaseStatus.reads_field lawful) fits
    obtain ⟨content, rfl, _⟩ := holds
    exact (reads_readLease lawful fits reads i.lease).map _
  | noLease => exact (reads_noLease lawful i.lease).map _
  | unknown value other =>
    have skips : InterfaceStatus.field codec i key = (do
        call codec.skip
        return i) := by
      unfold InterfaceStatus.field
      split <;> first | rfl | exact absurd (by decide) other
    rw [skips]
    exact (reads_skip lawful fits).map fun _ => i

theorem DnsScope.reads_field {key : String} {d : Doc} {effect : DnsScope → DnsScope}
    (sets : DnsScope.fields.sets key d effect) (fits : d.Fits Text) (s : DnsScope) :
    Reads (DnsScope.field codec s key) (codec.octets d.tokens) (.ok (effect s)) := by
  cases sets with
  | ifid text => exact (reads_str lawful fits).map _
  | name text => exact (reads_str lawful fits).map _
  | servers texts => exact (reads_strList lawful fits).map _
  | domains texts => exact (reads_strList lawful fits).map _
  | ntp texts => exact (reads_strList lawful fits).map _
  | addresses texts => exact (reads_strList lawful fits).map _
  | defaultRoute value => exact (reads_bool lawful value).map _
  | exclusive value => exact (reads_bool lawful value).map _
  | metric value => exact (reads_u32 lawful value).map _
  | level text => exact (reads_level lawful fits).map _
  | unknown value other =>
    have skips : DnsScope.field codec s key = (do
        call codec.skip
        return s) := by
      unfold DnsScope.field
      split <;> first | rfl | exact absurd (by decide) other
    rw [skips]
    exact (reads_skip lawful fits).map fun _ => s

theorem RequestParts.reads_field {key : String} {d : Doc} {effect : RequestParts → RequestParts}
    (sets : RequestParts.fields.sets key d effect) (fits : d.Fits Text) (p : RequestParts) :
    Reads (RequestParts.field codec p key) (codec.octets d.tokens) (.ok (effect p)) := by
  cases sets with
  | query text => exact (reads_str lawful fits).map _
  | interface text => exact (reads_str lawful fits).map _
  | unknown value other =>
    have skips : RequestParts.field codec p key = (do
        call codec.skip
        return p) := by
      unfold RequestParts.field
      split <;> first | rfl | exact absurd (by decide) other
    rw [skips]
    exact (reads_skip lawful fits).map fun _ => p

theorem ReplyParts.reads_field {key : String} {d : Doc} {effect : ReplyParts → ReplyParts}
    (sets : ReplyParts.fields.sets key d effect) (fits : d.Fits Text) (p : ReplyParts) :
    Reads (ReplyParts.field codec p key) (codec.octets d.tokens) (.ok (effect p)) := by
  cases sets with
  | ok value => exact (reads_bool lawful value).map _
  | error text => exact (reads_str lawful fits).map _
  | kind text => exact (reads_str lawful fits).map _
  | scopes each => exact reads_array lawful fits.1 (Doc.reads_holds lawful (DnsScope.reads_field lawful) each fits.2) _
  | hostname text => exact (reads_str lawful fits).map _
  | level text => exact (reads_level lawful fits).map _
  | refusal value => exact (reads_optStr lawful fits).map _
  | interfaces each =>
    exact reads_array lawful fits.1 (Doc.reads_holds lawful (InterfaceStatus.reads_field lawful) each fits.2) _
  | unknown value other =>
    have skips : ReplyParts.field codec p key = (do
        call codec.skip
        return p) := by
      unfold ReplyParts.field
      split <;> first | rfl | exact absurd (by decide) other
    rw [skips]
    exact (reads_skip lawful fits).map fun _ => p

end Readers

end Netd.Model.Wire
