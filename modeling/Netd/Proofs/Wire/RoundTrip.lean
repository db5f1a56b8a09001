import Netd.Proofs.Wire.Alterations
import Netd.Proofs.Wire.Messagepack

/-! # The control wire round-trips

Every message is written as a document, with the lengths that its maps have, and that document holds
the message. What is read from a document depends on what it holds alone.
-/

namespace Netd.Model.Wire

/-! ## Messages as documents -/

def Doc.strs (texts : List String) : Doc := .array (texts.map .str)

def LeaseStatus.doc (l : LeaseStatus) : Doc :=
  .map [("server", .str l.server), ("expires_in", .uint l.expiresIn), ("state", .str l.state),
    ("duration", .uint l.duration), ("renew_at", .uint l.renewAt), ("rebind_at", .uint l.rebindAt)]

def InterfaceStatus.leaseDoc : Option LeaseStatus → Doc
  | some l => l.doc
  | none => .nil

def InterfaceStatus.doc (i : InterfaceStatus) : Doc :=
  .map [("ifid", .str i.ifid), ("name", .str i.name), ("index", .uint (i.index.setWidth 64)), ("mac", .str i.mac),
    ("path", .str i.path), ("driver", .str i.driver), ("verdict", .optStr i.verdict), ("rule", .optStr i.rule),
    ("profile", .optStr i.profile), ("network", .optStr i.network), ("network_name", .optStr i.networkName),
    ("network_trust", .optStr i.networkTrust), ("warning", .optStr i.warning), ("up", .bool i.up),
    ("carrier", .bool i.carrier), ("level", .str i.level.asStr), ("addresses", .strs i.addresses),
    ("gateway", .optStr i.gateway), ("gateway6", .optStr i.gateway6), ("dns", .strs i.dns),
    ("search", .strs i.search), ("lease", InterfaceStatus.leaseDoc i.lease)]

def DnsScope.doc (s : DnsScope) : Doc :=
  .map [("ifid", .str s.ifid), ("name", .str s.name), ("servers", .strs s.servers), ("domains", .strs s.domains),
    ("ntp", .strs s.ntp), ("addresses", .strs s.addresses), ("default_route", .bool s.defaultRoute),
    ("exclusive", .bool s.exclusive), ("metric", .uint (s.metric.setWidth 64)), ("level", .str s.level.asStr)]

def Request.doc : Request → Doc
  | .status => .map [("query", .str "status")]
  | .renew interface => .map [("query", .str "renew"), ("interface", .str interface)]
  | .reconcile => .map [("query", .str "reconcile")]
  | .subscribe => .map [("query", .str "subscribe")]

def Reply.doc : Reply → Doc
  | .ok => .map [("ok", .bool true)]
  | .error message => .map [("ok", .bool false), ("error", .str message)]
  | .snapshot s =>
    .map [("ok", .bool true), ("kind", .str "snapshot"), ("hostname", .str s.hostname),
      ("scopes", .array (s.scopes.map DnsScope.doc))]
  | .status s =>
    .map [("ok", .bool true), ("hostname", .str s.hostname), ("level", .str s.level.asStr),
      ("refusal", .optStr s.refusal), ("interfaces", .array (s.interfaces.map InterfaceStatus.doc))]

/-! ## Documents are what is written -/

theorem Doc.itemTokens_map {α : Type} {doc : α → Doc} {tokens : α → List Token} (same : ∀ a, (doc a).tokens = tokens a)
    (items : List α) : Doc.itemTokens (items.map doc) = items.flatMap tokens := by
  induction items with
  | nil => rfl
  | cons item rest ih => rw [List.map_cons, Doc.itemTokens, same, ih, List.flatMap_cons]

theorem tokens_strs (texts : List String) : (Doc.strs texts).tokens = .array (count texts) :: texts.map .str := by
  have items : Doc.itemTokens (texts.map Doc.str) = texts.map Token.str := by
    rw [Doc.itemTokens_map (fun _ => rfl), List.map_eq_flatMap]
    rfl
  rw [Doc.strs, Doc.tokens, items, count, List.length_map, count]

theorem tokens_optStr (key : String) (value : Option String) :
    .str key :: (Doc.optStr value).tokens = writeOptStr key value := by
  cases value <;> rfl

theorem InterfaceStatus.tokens_doc (i : InterfaceStatus) : i.doc.tokens = i.tokens := by
  cases lease : i.lease with
  | none =>
    simp only [InterfaceStatus.doc, InterfaceStatus.tokens, Doc.tokens, Doc.fieldTokens, tokens_strs, lease,
      writeStrList,
      ← tokens_optStr, List.cons_append, List.append_assoc, List.nil_append, List.append_nil]
    rfl
  | some l =>
    simp only [InterfaceStatus.doc, InterfaceStatus.tokens, Doc.tokens, Doc.fieldTokens, tokens_strs, lease,
      writeStrList,
      ← tokens_optStr, List.cons_append, List.append_assoc, List.nil_append, List.append_nil]
    rfl

theorem DnsScope.tokens_doc (s : DnsScope) : s.doc.tokens = s.tokens := by
  simp only [DnsScope.doc, DnsScope.tokens, Doc.tokens, Doc.fieldTokens, tokens_strs, writeStrList, List.cons_append,
    List.append_assoc, List.nil_append, List.append_nil]
  rfl

theorem Request.tokens_doc (q : Request) : q.doc.tokens = q.tokens := by
  cases q <;> rfl

theorem Reply.tokens_doc (r : Reply) : r.doc.tokens = r.tokens := by
  cases r with
  | ok => rfl
  | error message => rfl
  | snapshot s =>
    have scopes := Doc.itemTokens_map DnsScope.tokens_doc s.scopes
    simp only [Reply.doc, Reply.tokens, Doc.tokens, Doc.fieldTokens, scopes, count, List.length_map, List.cons_append,
      List.nil_append, List.append_nil]
    rfl
  | status s =>
    have interfaces := Doc.itemTokens_map InterfaceStatus.tokens_doc s.interfaces
    simp only [Reply.doc, Reply.tokens, Doc.tokens, Doc.fieldTokens, interfaces, count, List.length_map,
      ← tokens_optStr,
      List.cons_append, List.nil_append, List.append_nil, List.append_assoc]
    rfl

/-! ## Documents hold the messages -/

theorem parse_asStr (level : Level) : (Level.parse level.asStr).getD .absent = level := by
  cases level <;> rfl

theorem setWidth_setWidth (value : U32) : (value.setWidth 64).setWidth 32 = value := by
  rw [BitVec.setWidth_setWidth_of_le _ (by decide), BitVec.setWidth_eq]

theorem LeaseStatus.holds_doc (l : LeaseStatus) : Kind.lease.Holds l.doc l := by
  have distinct : LeaseStatus.keys.Nodup := by decide
  exact ⟨_, rfl, distinct, .cons (.server _) <| .cons (.expiresIn _) <| .cons (.state _) <| .cons (.duration _) <|
    .cons (.renewAt _) <| .cons (.rebindAt _) <| .nil _⟩

theorem InterfaceStatus.sets_leaseDoc (lease : Option LeaseStatus) :
    ∃ effect, InterfaceStatus.fields.sets "lease" (InterfaceStatus.leaseDoc lease) effect ∧
      ∀ i : InterfaceStatus, i.lease = none → effect i = { i with lease } := by
  cases lease with
  | none => exact ⟨id, .noLease, fun i none => by rw [← none]; rfl⟩
  | some l => exact ⟨_, .lease l.holds_doc, fun _ _ => rfl⟩

theorem InterfaceStatus.holds_doc (i : InterfaceStatus) : Kind.interface.Holds i.doc i := by
  have distinct : InterfaceStatus.keys.Nodup := by decide
  obtain ⟨effect, sets, same⟩ := InterfaceStatus.sets_leaseDoc i.lease
  refine ⟨_, rfl, distinct, .cons (.ifid _) <| .cons (.name _) <| .cons (.index _) <| .cons (.mac _) <|
    .cons (.path _) <| .cons (.driver _) <| .cons (.verdict _) <| .cons (.rule _) <| .cons (.profile _) <|
    .cons (.network _) <| .cons (.networkName _) <| .cons (.networkTrust _) <| .cons (.warning _) <|
    .cons (.up _) <| .cons (.carrier _) <| .cons (.level _) <| .cons (.addresses _) <| .cons (.gateway _) <|
    .cons (.gateway6 _) <| .cons (.dns _) <| .cons (.search _) <| .cons sets <| .done ?_⟩
  simp only [Fields.set, parse_asStr, setWidth_setWidth]
  rw [same]
  rfl

theorem DnsScope.holds_doc (s : DnsScope) : Kind.scope.Holds s.doc s := by
  have distinct : DnsScope.keys.Nodup := by decide
  refine ⟨_, rfl, distinct, .cons (.ifid _) <| .cons (.name _) <| .cons (.servers _) <| .cons (.domains _) <|
    .cons (.ntp _) <| .cons (.addresses _) <| .cons (.defaultRoute _) <| .cons (.exclusive _) <|
    .cons (.metric _) <| .cons (.level _) <| .done ?_⟩
  simp only [Fields.set, parse_asStr, setWidth_setWidth]
  rfl

/-- What is gathered from a request. -/
def Request.parts : Request → RequestParts
  | .status => { query := some "status" }
  | .renew interface => { query := some "renew", interface := some interface }
  | .reconcile => { query := some "reconcile" }
  | .subscribe => { query := some "subscribe" }

theorem Request.holds_doc (q : Request) : Kind.request.Holds q.doc q.parts := by
  have one : ["query"].Nodup := by decide
  cases q with
  | status => exact ⟨_, rfl, one, .cons (.query _) (.nil _)⟩
  | renew interface =>
    have two : ["query", "interface"].Nodup := by decide
    exact ⟨_, rfl, two, .cons (.query _) <| .cons (.interface _) (.nil _)⟩
  | reconcile => exact ⟨_, rfl, one, .cons (.query _) (.nil _)⟩
  | subscribe => exact ⟨_, rfl, one, .cons (.query _) (.nil _)⟩

/-- What is gathered from a reply. -/
def Reply.parts : Reply → ReplyParts
  | .ok => { ok := some true }
  | .error message => { ok := some false, error := some message }
  | .snapshot s =>
    { ok := some true
      kind := some "snapshot"
      status := { hostname := s.hostname }
      hasStatus := true
      snapshot := s }
  | .status s =>
    { ok := some true
      status := s
      hasStatus := true
      snapshot := { hostname := s.hostname } }

theorem Reply.holds_doc (r : Reply) : Kind.reply.Holds r.doc r.parts := by
  cases r with
  | ok =>
    have distinct : ["ok"].Nodup := by decide
    exact ⟨_, rfl, distinct, .cons (.ok _) (.nil _)⟩
  | error message =>
    have distinct : ["ok", "error"].Nodup := by decide
    exact ⟨_, rfl, distinct, .cons (.ok _) <| .cons (.error _) (.nil _)⟩
  | snapshot s =>
    have distinct : ["ok", "kind", "hostname", "scopes"].Nodup := by decide
    have each : List.Forall₂ (Doc.Holds DnsScope.fields {}) (s.scopes.map DnsScope.doc) s.scopes := by
      rw [List.forall₂_map_left_iff]
      exact List.forall₂_same.mpr fun scope _ => scope.holds_doc
    exact ⟨_, rfl, distinct,
      .cons (.ok _) <| .cons (.kind _) <| .cons (.hostname _) <| .cons (.scopes each) <| .done rfl⟩
  | status s =>
    have distinct : ["ok", "hostname", "level", "refusal", "interfaces"].Nodup := by decide
    have each :
        List.Forall₂ (Doc.Holds InterfaceStatus.fields {}) (s.interfaces.map InterfaceStatus.doc) s.interfaces := by
      rw [List.forall₂_map_left_iff]
      exact List.forall₂_same.mpr fun interface _ => interface.holds_doc
    refine ⟨_, rfl, distinct, .cons (.ok _) <| .cons (.hostname _) <| .cons (.level _) <| .cons (.refusal _) <|
      .cons (.interfaces each) <| .done ?_⟩
    simp only [Fields.set, parse_asStr]
    rfl

/-! ## Messages that can be written -/

/-- Lists that a header can count. -/
structure DnsScope.Short (s : DnsScope) : Prop where
  servers : s.servers.length < 2 ^ 32
  domains : s.domains.length < 2 ^ 32
  ntp : s.ntp.length < 2 ^ 32
  addresses : s.addresses.length < 2 ^ 32

structure InterfaceStatus.Short (i : InterfaceStatus) : Prop where
  addresses : i.addresses.length < 2 ^ 32
  dns : i.dns.length < 2 ^ 32
  search : i.search.length < 2 ^ 32

/-- Every list in a reply has fewer than 2³² items. -/
def Reply.Short : Reply → Prop
  | .ok | .error _ => True
  | .snapshot s => s.scopes.length < 2 ^ 32 ∧ ∀ scope ∈ s.scopes, scope.Short
  | .status s => s.interfaces.length < 2 ^ 32 ∧ ∀ interface ∈ s.interfaces, interface.Short

/-- Every text a message writes is one of these. -/
def Request.Spells (Text : String → Prop) (q : Request) : Prop := ∀ token ∈ q.tokens, token.Spells Text

def Reply.Spells (Text : String → Prop) (r : Reply) : Prop := ∀ token ∈ r.tokens, token.Spells Text

theorem Doc.itemsFit_map {Text : String → Prop} {α : Type} {doc : α → Doc} {items : List α}
    (each : ∀ item ∈ items, (doc item).Fits Text) : Doc.ItemsFit Text (items.map doc) := by
  induction items with
  | nil => trivial
  | cons item rest ih =>
    obtain ⟨first, others⟩ := List.forall_mem_cons.mp each
    exact ⟨first, ih others⟩

/-- What can be counted, whatever its texts are. -/
abbrev Doc.Counts (d : Doc) : Prop := d.Fits fun _ => True

theorem counts_strs {texts : List String} (short : texts.length < 2 ^ 32) : (Doc.strs texts).Counts :=
  ⟨by rwa [List.length_map], Doc.itemsFit_map fun _ _ => trivial⟩

theorem counts_optStr (value : Option String) : (Doc.optStr value).Counts := by
  cases value <;> trivial

theorem InterfaceStatus.counts_doc {i : InterfaceStatus} (short : i.Short) : i.doc.Counts := by
  have lease : (InterfaceStatus.leaseDoc i.lease).Counts := by
    cases i.lease with
    | none => trivial
    | some l => simp [InterfaceStatus.leaseDoc, LeaseStatus.doc, Doc.Fits, Doc.FieldsFit]
  simp [InterfaceStatus.doc, Doc.Fits, Doc.FieldsFit, counts_optStr, counts_strs short.addresses,
    counts_strs short.dns, counts_strs short.search, lease]

theorem DnsScope.counts_doc {s : DnsScope} (short : s.Short) : s.doc.Counts := by
  simp [DnsScope.doc, Doc.Fits, Doc.FieldsFit, counts_strs short.servers, counts_strs short.domains,
    counts_strs short.ntp, counts_strs short.addresses]

theorem Request.counts_doc (q : Request) : q.doc.Counts := by
  cases q <;> simp [Request.doc, Doc.Fits, Doc.FieldsFit]

theorem Reply.counts_doc {r : Reply} (short : r.Short) : r.doc.Counts := by
  cases r with
  | ok => simp [Reply.doc, Doc.Fits, Doc.FieldsFit]
  | error message => simp [Reply.doc, Doc.Fits, Doc.FieldsFit]
  | snapshot s =>
    have scopes := Doc.itemsFit_map fun scope member => DnsScope.counts_doc (short.2 scope member)
    simp [Reply.doc, Doc.Fits, Doc.FieldsFit, scopes]
    exact short.1
  | status s =>
    have interfaces := Doc.itemsFit_map fun interface member => InterfaceStatus.counts_doc (short.2 interface member)
    simp [Reply.doc, Doc.Fits, Doc.FieldsFit, interfaces, counts_optStr]
    exact short.1

theorem Request.fits_doc {Text : String → Prop} {q : Request} (spells : q.Spells Text) : q.doc.Fits Text :=
  Doc.fits_of_spells q.counts_doc (q.tokens_doc ▸ spells)

theorem Reply.fits_doc {Text : String → Prop} {r : Reply} (short : r.Short) (spells : r.Spells Text) :
    r.doc.Fits Text :=
  Doc.fits_of_spells (Reply.counts_doc short) (r.tokens_doc ▸ spells)

/-! ## Round trips -/

section RoundTrip

variable {ε : Type} (codec : Msgpack ε) (Text : String → Prop)

/-- The octets of a document. -/
def Doc.encode (d : Doc) : Bytes := (codec.toBytes d.tokens).getD []

/-- A message from what was gathered; what is behind it is not looked at. -/
def decodeWith {σ α : Type} (reader : Read ε σ) (finish : σ → Except (WireError ε) α) (octets : Bytes) :
    Except (WireError ε) α := do
  let (parts, _) ← reader.run octets
  finish parts

theorem decodeWith_ok {σ α : Type} {reader : Read ε σ} (finish : σ → Except (WireError ε) α) {octets rest : Bytes}
    {parts : σ} (read : reader octets = .ok (parts, rest)) : decodeWith reader finish octets = finish parts := by
  rw [decodeWith, StateT.run, read]
  rfl

/-- A message whose document is `doc` comes back from what was written. It comes back from any document
that has the same fields in another order, or more that nobody knows; and it does not where a key is
there twice. -/
structure RoundTrips {α : Type} (kind : Kind) (doc : Doc) (written : Bytes)
    (decode : Bytes → Except (WireError ε) α) (message : α) : Prop where
  accepted : codec.toBytes doc.tokens = some written
  back : decode written = .ok message
  altered : ∀ {d : Doc}, Relation.ReflTransGen (Alters kind) doc d → d.Fits Text → decode (d.encode codec) = .ok message
  duplicate : ∀ {d other : Doc} {key : String}, Relation.ReflTransGen (Alters kind) doc d →
    Repeats kind key d other → other.Fits Text → decode (other.encode codec) = .error (.duplicate key)

variable {codec Text} (lawful : codec.Lawful Text)

include lawful

theorem Doc.encode_eq {d : Doc} (fits : d.Fits Text) : d.encode codec = codec.octets d.tokens := by
  rw [Doc.encode, lawful.toBytes fits, Option.getD_some]

/-- A reader of messages that looks at nothing but what a document holds. -/
theorem roundTrips {α : Type} {kind : Kind} {doc : Doc} {parts : kind.format.σ}
    {finish : kind.format.σ → Except (WireError ε) α} {message : α} (holds : kind.Holds doc parts)
    (fits : doc.Fits Text)
    (finished : finish parts = .ok message) :
    RoundTrips codec Text kind doc (doc.encode codec) (decodeWith (kind.decoder codec) finish) message := by
  have read {d : Doc} (alterations : Relation.ReflTransGen (Alters kind) doc d) (fits : d.Fits Text) :
      decodeWith (kind.decoder codec) finish (d.encode codec) = .ok message := by
    have reads := Kind.reads lawful (Kind.holds_of_alterations alterations holds) fits []
    rw [List.append_nil] at reads
    rw [Doc.encode_eq lawful fits]
    exact (decodeWith_ok finish reads).trans finished
  refine ⟨?_, read .refl fits, read, fun alterations repeats fits => ?_⟩
  · rw [Doc.encode_eq lawful fits]
    exact lawful.toBytes fits
  · have fails := repeats.reads lawful (Kind.holds_of_alterations alterations holds) fits []
    rw [List.append_nil] at fails
    rw [Doc.encode_eq lawful fits, decodeWith, StateT.run, fails]
    rfl

/-- Requests and replies round-trip, with any texts that the codec reads back. -/
theorem wire_round_trips :
    (∀ q : Request, q.Spells Text → RoundTrips codec Text .request q.doc (q.encode codec) (Request.decode codec) q) ∧
      ∀ r : Reply, r.Short → r.Spells Text →
        RoundTrips codec Text .reply r.doc (r.encode codec) (Reply.decode codec) r := by
  refine ⟨fun q spells => ?_, fun r short spells => ?_⟩
  · have finished : (q.parts.request : Except (WireError ε) Request) = .ok q := by
      cases q <;> rfl
    have written : q.encode codec = q.doc.encode codec := by rw [Request.encode, Doc.encode, q.tokens_doc]
    rw [written]
    exact roundTrips lawful q.holds_doc (Request.fits_doc spells) finished
  · have finished : (r.parts.reply : Except (WireError ε) Reply) = .ok r := by
      cases r <;> rfl
    have written : r.encode codec = r.doc.encode codec := by rw [Reply.encode, Doc.encode, r.tokens_doc]
    rw [written]
    exact roundTrips lawful r.holds_doc (Reply.fits_doc short spells) finished

end RoundTrip

/-- A status with a little of everything. -/
def sampleStatus : Reply :=
  .status
    { hostname := "peios"
      level := .routed
      interfaces :=
        [{ ifid := "0f", index := 2, verdict := some "", carrier := true, level := .routed,
           addresses := ["192.0.2.7/24"], dns := ["192.0.2.1", "2001:db8::1"],
           lease := some { server := "192.0.2.1", expiresIn := 3600 } }] }

theorem wire_round_trips_messagepack :
    messagepack.Lawful Spelt ∧
      (Request.renew "eth0").Spells Spelt ∧
      RoundTrips messagepack Spelt .request (Request.renew "eth0").doc ((Request.renew "eth0").encode messagepack)
        (Request.decode messagepack) (.renew "eth0") ∧
      sampleStatus.Short ∧ sampleStatus.Spells Spelt ∧
      RoundTrips messagepack Spelt .reply sampleStatus.doc (sampleStatus.encode messagepack)
        (Reply.decode messagepack) sampleStatus := by
  have asked : (Request.renew "eth0").Spells Spelt := by
    have all : (Request.renew "eth0").tokens.all Messagepack.plain := by decide
    exact fun token member => Messagepack.plain_iff.mp (List.all_eq_true.mp all token member)
  have short : sampleStatus.Short := by
    refine ⟨by decide, fun interface member => ?_⟩
    obtain rfl := List.mem_singleton.mp member
    exact ⟨by decide, by decide, by decide⟩
  have spells : sampleStatus.Spells Spelt := by
    have all : sampleStatus.tokens.all Messagepack.plain := by decide +kernel
    exact fun token member => Messagepack.plain_iff.mp (List.all_eq_true.mp all token member)
  exact ⟨messagepack_lawful, asked, (wire_round_trips messagepack_lawful).1 _ asked, short, spells,
    (wire_round_trips messagepack_lawful).2 _ short spells⟩

/-! ## Lists that cannot be counted -/

/-- A status whose interfaces are nothing in 32 bits is announced as one without any. With more behind it that
is not one value, and the writer refuses it. -/
theorem toBytes_uncounted {interfaces : List InterfaceStatus} (none : count interfaces = 0) (some : interfaces ≠ []) :
    messagepack.toBytes (Reply.status { interfaces }).tokens = .none := by
  have tokens : (Reply.status { interfaces }).tokens =
      (Reply.status {}).doc.tokens ++ interfaces.flatMap InterfaceStatus.tokens := by
    rw [Reply.tokens_doc, Reply.tokens, Reply.tokens, none, List.flatMap_nil, List.append_nil]
    rfl
  have empty : (Reply.status {}).doc.Fits Spelt := by
    refine Reply.fits_doc ⟨by decide, List.forall_mem_nil _⟩ fun token member => ?_
    have all : (Reply.status {}).tokens.all Messagepack.plain := by decide +kernel
    exact Messagepack.plain_iff.mp (List.all_eq_true.mp all token member)
  have more : interfaces.flatMap InterfaceStatus.tokens ≠ [] := by
    obtain ⟨first, rest, rfl⟩ := List.exists_cons_of_ne_nil some
    exact List.cons_ne_nil _ _
  have whole := Messagepack.complete_doc (Reply.status {}).doc empty 0 (interfaces.flatMap InterfaceStatus.tokens)
  rw [tokens]
  refine if_neg ?_
  rw [← Nat.zero_add 1, whole, Messagepack.complete, List.isEmpty_iff]
  exact more

/-- A status with 2³² interfaces is refused by the writer, so it does not come back. -/
theorem uncounted_does_not_round_trip :
    Reply.decode messagepack (Reply.encode messagepack (.status { interfaces := List.replicate (2 ^ 32) {} })) ≠
      .ok (.status { interfaces := List.replicate (2 ^ 32) {} }) := by
  generalize many : List.replicate (2 ^ 32) ({} : InterfaceStatus) = interfaces
  have length : interfaces.length = 2 ^ 32 := by rw [← many, List.length_replicate]
  have none : count interfaces = 0 := by
    rw [count, length]
    rfl
  have some : interfaces ≠ [] := by
    rintro rfl
    cases length
  rw [Reply.encode, toBytes_uncounted none some, Option.getD_none]
  have nothing : Reply.decode messagepack [] = .error (.encoding .ended) := rfl
  rw [nothing]
  intro same
  cases same

end Netd.Model.Wire
