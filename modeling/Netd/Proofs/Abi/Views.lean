import Mathlib.Algebra.Order.BigOperators.Group.List
import Netd.Machine.Fallible
import Netd.Model.Abi.Views
import Netd.Proofs.Text.Utf8

/-! # Results cross the C boundary

A view is read back field by field: texts as the octets they were laid out as, lists in order, an absent
text as a null pointer and an empty one as one that is not. Whatever is laid out fits in memory, so
its lengths are machine words.
-/

namespace Netd.Model.Abi

open Wire (InterfaceStatus LeaseStatus)

/-! ## Fields -/

theorem decode_array {α : Type} {items : List α} (small : items.length < 2 ^ 64) :
    Decode.array (some items) (len items) = .ok items := by
  have length : (len items).toNat = items.length := by rw [len, BitVec.toNat_ofNat, Nat.mod_eq_of_lt small]
  rw [Decode.array]
  split_ifs with zero
  · rw [zero] at length
    rw [List.eq_nil_of_length_eq_zero length.symm]
  · rw [fromRawParts, length, if_pos le_rfl, List.take_length]

theorem decode_text {text : String} (small : text.utf8ByteSize < 2 ^ 64) :
    Decode.text (Arena.text text) = .ok text := by
  have octets : Decode.array (Arena.text text).data (Arena.text text).len = .ok (asBytes text) :=
    decode_array (by rwa [length_asBytes])
  rw [Decode.text, octets]
  simp only [bind, Except.bind, fromUtf8_asBytes]
  rfl

/-- A text that is there is told from one that is not. -/
theorem decode_maybeText {text : Option String} (small : text.elim 0 String.utf8ByteSize < 2 ^ 64) :
    Decode.optionalText (Arena.maybeText text) = .ok text := by
  cases text with
  | none => rfl
  | some text =>
    change (Decode.text (Arena.text text)).map some = _
    rw [decode_text small]
    rfl

/-- How much a list of texts takes. -/
def textsExtent (texts : List String) : ℕ := texts.length + (texts.map String.utf8ByteSize).sum

theorem decode_strings {texts : List String} (small : textsExtent texts < 2 ^ 64) :
    Decode.strings (Arena.strings texts) = .ok texts := by
  rw [textsExtent] at small
  have spans : Decode.array (Arena.strings texts).data (Arena.strings texts).len = .ok (texts.map Arena.text) := by
    apply decode_array
    rw [List.length_map]
    omega
  rw [Decode.strings, spans]
  refine Fallible.mapM_map fun text member => decode_text ?_
  have bounded : text.utf8ByteSize ≤ (texts.map String.utf8ByteSize).sum :=
    List.single_le_sum (fun _ _ => Nat.zero_le _) _ (List.mem_map_of_mem member)
  omega

theorem decode_flag (value : Bool) : decide (flag value ≠ 0) = value := by cases value <;> decide

theorem decode_optional (value : Option U32) : Decode.optional (Arena.optional value) = value := by
  cases value <;> rfl

theorem decode_level (value : Wire.Level) : Decode.level (Arena.level value) = .ok value := by cases value <;> rfl

theorem decode_onExpiry (value : OnExpiry) :
    Decode.onExpiry (Arena.onExpiry value) = .ok value := by cases value <;> rfl

/-! ## Status and snapshots -/

/-- How much an optional text takes. -/
def textExtent (text : Option String) : ℕ := text.elim 0 String.utf8ByteSize

/-- How much memory the texts and lists of a record take. -/
def leaseExtent (value : LeaseStatus) : ℕ := value.server.utf8ByteSize + value.state.utf8ByteSize

def interfaceExtent (value : InterfaceStatus) : ℕ :=
  value.ifid.utf8ByteSize + value.name.utf8ByteSize + value.mac.utf8ByteSize + value.path.utf8ByteSize +
    value.driver.utf8ByteSize + textExtent value.verdict + textExtent value.rule + textExtent value.profile +
    textExtent value.network + textExtent value.networkName + textExtent value.networkTrust +
    textExtent value.warning + textsExtent value.addresses + textExtent value.gateway + textExtent value.gateway6 +
    textsExtent value.dns + textsExtent value.search + value.lease.elim 0 leaseExtent

def statusExtent (value : Wire.Status) : ℕ :=
  value.hostname.utf8ByteSize + textExtent value.refusal + value.interfaces.length +
    (value.interfaces.map interfaceExtent).sum

def scopeExtent (value : Wire.DnsScope) : ℕ :=
  value.ifid.utf8ByteSize + value.name.utf8ByteSize + textsExtent value.servers + textsExtent value.domains +
    textsExtent value.ntp + textsExtent value.addresses

def snapshotExtent (value : Wire.Snapshot) : ℕ :=
  value.hostname.utf8ByteSize + value.scopes.length + (value.scopes.map scopeExtent).sum

theorem decode_lease {value : Option LeaseStatus} (small : value.elim 0 leaseExtent < 2 ^ 64) :
    Decode.lease (Arena.lease value) = .ok value := by
  cases value with
  | none => rfl
  | some lease =>
    change lease.server.utf8ByteSize + lease.state.utf8ByteSize < 2 ^ 64 at small
    have server : Decode.text (Arena.text lease.server) = .ok lease.server := decode_text (by omega)
    have state : Decode.text (Arena.text lease.state) = .ok lease.state := decode_text (by omega)
    change (do
      let server ← Decode.text (Arena.text lease.server)
      let state ← Decode.text (Arena.text lease.state)
      return some { lease with server, state } : Except Fault (Option LeaseStatus)) = _
    rw [server, state]
    rfl

theorem decode_interface {value : InterfaceStatus} (small : interfaceExtent value < 2 ^ 64) :
    Decode.interface (Arena.interface value) = .ok value := by
  rw [interfaceExtent] at small
  have ifid : Decode.text (Arena.text value.ifid) = .ok value.ifid := decode_text (by omega)
  have name : Decode.text (Arena.text value.name) = .ok value.name := decode_text (by omega)
  have mac : Decode.text (Arena.text value.mac) = .ok value.mac := decode_text (by omega)
  have path : Decode.text (Arena.text value.path) = .ok value.path := decode_text (by omega)
  have driver : Decode.text (Arena.text value.driver) = .ok value.driver := decode_text (by omega)
  have maybe (text : Option String) (within : textExtent text < 2 ^ 64) :
      Decode.optionalText (Arena.maybeText text) = .ok text := decode_maybeText within
  have addresses : Decode.strings (Arena.strings value.addresses) = .ok value.addresses := decode_strings (by omega)
  have dns : Decode.strings (Arena.strings value.dns) = .ok value.dns := decode_strings (by omega)
  have search : Decode.strings (Arena.strings value.search) = .ok value.search := decode_strings (by omega)
  have lease : Decode.lease (Arena.lease value.lease) = .ok value.lease := decode_lease (by omega)
  rw [Decode.interface, Arena.interface]
  dsimp only
  rw [ifid, name, mac, path, driver, maybe value.verdict (by omega), maybe value.rule (by omega),
    maybe value.profile (by omega), maybe value.network (by omega),
    maybe value.networkName (by omega), maybe value.networkTrust (by omega),
    maybe value.warning (by omega), decode_level, addresses, maybe value.gateway (by omega),
    maybe value.gateway6 (by omega), dns, search, lease]
  simp only [decode_flag]
  rfl

theorem decode_status {value : Wire.Status} (small : statusExtent value < 2 ^ 64) :
    Decode.status (some (Arena.status value)) = .ok value := by
  rw [statusExtent] at small
  have hostname : Decode.text (Arena.text value.hostname) = .ok value.hostname := decode_text (by omega)
  have refusal : Decode.optionalText (Arena.maybeText value.refusal) = .ok value.refusal :=
    decode_maybeText (show textExtent value.refusal < 2 ^ 64 by omega)
  have views : Decode.array (some (value.interfaces.map Arena.interface)) (len (value.interfaces.map Arena.interface)) =
      .ok (value.interfaces.map Arena.interface) := by
    apply decode_array
    rw [List.length_map]
    omega
  have interfaces : (value.interfaces.map Arena.interface).mapM Decode.interface = .ok value.interfaces := by
    refine Fallible.mapM_map fun interface member => decode_interface ?_
    have bounded : interfaceExtent interface ≤ (value.interfaces.map interfaceExtent).sum :=
      List.single_le_sum (fun _ _ => Nat.zero_le _) _ (List.mem_map_of_mem member)
    omega
  rw [Decode.status, Arena.status]
  dsimp only
  simp only [hostname, decode_level, refusal, views, interfaces, Fallible.ok_bind]
  rfl

theorem decode_scope {value : Wire.DnsScope} (small : scopeExtent value < 2 ^ 64) :
    Decode.scope (Arena.scope value) = .ok value := by
  rw [scopeExtent] at small
  have ifid : Decode.text (Arena.text value.ifid) = .ok value.ifid := decode_text (by omega)
  have name : Decode.text (Arena.text value.name) = .ok value.name := decode_text (by omega)
  have servers : Decode.strings (Arena.strings value.servers) = .ok value.servers := decode_strings (by omega)
  have domains : Decode.strings (Arena.strings value.domains) = .ok value.domains := decode_strings (by omega)
  have ntp : Decode.strings (Arena.strings value.ntp) = .ok value.ntp := decode_strings (by omega)
  have addresses : Decode.strings (Arena.strings value.addresses) = .ok value.addresses := decode_strings (by omega)
  rw [Decode.scope, Arena.scope]
  dsimp only
  rw [ifid, name, servers, domains, ntp, addresses, decode_level]
  simp only [decode_flag]
  rfl

theorem decode_snapshot {value : Wire.Snapshot} (small : snapshotExtent value < 2 ^ 64) :
    Decode.snapshot (some (Arena.snapshot value)) = .ok value := by
  rw [snapshotExtent] at small
  have hostname : Decode.text (Arena.text value.hostname) = .ok value.hostname := decode_text (by omega)
  have views : Decode.array (some (value.scopes.map Arena.scope)) (len (value.scopes.map Arena.scope)) =
      .ok (value.scopes.map Arena.scope) := by
    apply decode_array
    rw [List.length_map]
    omega
  have scopes : (value.scopes.map Arena.scope).mapM Decode.scope = .ok value.scopes := by
    refine Fallible.mapM_map fun scope member => decode_scope ?_
    have bounded : scopeExtent scope ≤ (value.scopes.map scopeExtent).sum :=
      List.single_le_sum (fun _ _ => Nat.zero_le _) _ (List.mem_map_of_mem member)
    omega
  rw [Decode.snapshot, Arena.snapshot]
  dsimp only
  simp only [hostname, views, scopes, Fallible.ok_bind]
  rfl

/-! ## Addresses as text -/

theorem slash_notMem_toDigits (base n : ℕ) : '/' ∉ Nat.toDigits base n := by
  have core (fuel n : ℕ) (digits : List Char) (fine : '/' ∉ digits) :
      '/' ∉ Nat.toDigitsCore base fuel n digits := by
    induction fuel generalizing n digits with
    | zero => exact fine
    | succ fuel ih =>
      have one : '/' ∉ (n % base).digitChar :: digits := by
        rw [List.mem_cons, not_or]
        exact ⟨(Nat.digitChar_ne '/' (by decide)).symm, fine⟩
      rw [Nat.toDigitsCore]
      split
      · exact one
      · exact ih _ _ one
  exact core _ _ _ List.not_mem_nil

theorem notMem_intercalate {separator : String} {parts : List String} {c : Char} (absent : c ∉ separator.toList)
    (each : ∀ part ∈ parts, c ∉ part.toList) : c ∉ (separator.intercalate parts).toList := by
  induction parts with
  | nil => exact List.not_mem_nil
  | cons part rest ih =>
    obtain ⟨here, later⟩ := List.forall_mem_cons.mp each
    cases rest with
    | nil =>
      rw [String.intercalate_singleton]
      exact here
    | cons next more =>
      rw [String.intercalate_cons_cons, String.toList_append, String.toList_append, List.mem_append, List.mem_append]
      exact not_or.mpr ⟨not_or.mpr ⟨here, absent⟩, ih later⟩

theorem slash_notMem_displayV4 (address : Ipv4Addr) : '/' ∉ (Ipv4Addr.display address).toList := by
  apply notMem_intercalate (by decide)
  intro part member
  obtain ⟨octet, _, rfl⟩ := List.mem_map.mp member
  change '/' ∉ (String.ofList (Nat.toDigits 10 octet.toNat)).toList
  rw [String.toList_ofList]
  exact slash_notMem_toDigits 10 octet.toNat

theorem slash_notMem_displayGroups (groups : List U16) : '/' ∉ (displayGroups groups).toList := by
  apply notMem_intercalate (by decide)
  intro part member
  obtain ⟨group, _, rfl⟩ := List.mem_map.mp member
  rw [lowerHex, String.toList_ofList]
  exact slash_notMem_toDigits 16 group.toNat

/-- An address is written without slashes. -/
theorem slash_notMem_display (address : IpAddr) : '/' ∉ address.display.toList := by
  cases address with
  | v4 address => exact slash_notMem_displayV4 address
  | v6 address =>
    change '/' ∉ (Ipv6Addr.display address).toList
    rw [Ipv6Addr.display]
    dsimp only
    split_ifs
    · rw [String.toList_append, List.mem_append]
      exact not_or.mpr ⟨by decide, slash_notMem_displayV4 _⟩
    · rw [String.toList_append, String.toList_append, List.mem_append, List.mem_append]
      exact not_or.mpr ⟨not_or.mpr ⟨slash_notMem_displayGroups _, by decide⟩, slash_notMem_displayGroups _⟩
    · exact slash_notMem_displayGroups _

/-- A text is split where the separator first stands. -/
theorem splitOnce_append {first second : String} {separator : Char} (absent : separator ∉ first.toList) :
    splitOnce (first ++ String.singleton separator ++ second) separator = some (first, second) := by
  have spelled : (first ++ String.singleton separator ++ second).toList =
      first.toList ++ separator :: second.toList := by
    simp
  have before : ∀ c ∈ first.toList, (c != separator) = true := by
    intro c member
    exact bne_iff_ne.mpr fun same => absent (same ▸ member)
  have split : (first.toList ++ separator :: second.toList).span (fun c => c != separator) =
      (first.toList, separator :: second.toList) := by
    rw [List.span_eq_takeWhile_dropWhile, List.takeWhile_append_of_pos before, List.dropWhile_append_of_pos before]
    simp
  rw [splitOnce, spelled, split]
  simp

theorem parse_octet (value : U8) : parseUnsigned 8 (toString value.toNat) = some value := by
  revert value
  decide +kernel

/-! ## Profiles -/

/-- The addresses of a profile read back as they are written. -/
structure Printable (value : Model.Profile) : Prop where
  gateway : ∀ address ∈ value.address.gateway, parseIpv4Addr (Ipv4Addr.display address) = some address
  gateway6 : ∀ address ∈ value.address.gateway6, parseIpv6Addr (Ipv6Addr.display address) = some address
  statics : ∀ entry ∈ value.address.statics, parseIpAddr entry.address.display = some entry.address
  servers : ∀ address ∈ value.dns.servers, parseIpAddr address.display = some address

def profileExtent (value : Model.Profile) : ℕ :=
  value.path.utf8ByteSize + textExtent (value.address.gateway.map Ipv4Addr.display) +
    textExtent (value.address.gateway6.map Ipv6Addr.display) + textsExtent (value.address.statics.map Arena.cidr) +
    textsExtent (value.dns.servers.map IpAddr.display) + textsExtent value.dns.domains

theorem decode_staticAddress {entry : StaticAddress}
    (printable : parseIpAddr entry.address.display = some entry.address) :
    Decode.staticAddress (Arena.cidr entry) = .ok entry := by
  have slash : "/" = String.singleton '/' := rfl
  have split : splitOnce (Arena.cidr entry) '/' = some (entry.address.display, toString entry.prefixLength.toNat) := by
    rw [Arena.cidr, slash]
    exact splitOnce_append (slash_notMem_display entry.address)
  rw [Decode.staticAddress, split]
  dsimp only
  rw [printable, parse_octet]
  rfl

theorem decode_transposed {α : Type} {parse : String → Option α} {display : α → String} {value : Option α}
    (printable : ∀ a ∈ value, parse (display a) = some a) :
    Decode.transposed parse (value.map display) = .ok value := by
  cases value with
  | none => rfl
  | some a =>
    change (Decode.parsed (parse (display a))).map some = _
    rw [printable a rfl]
    rfl

theorem decode_profile {value : Model.Profile} (small : profileExtent value < 2 ^ 64) (printable : Printable value) :
    Decode.profile (some (Arena.profile value)) = .ok value := by
  rw [profileExtent] at small
  have path : Decode.text (Arena.text value.path) = .ok value.path := decode_text (by omega)
  have statics : Decode.strings (Arena.strings (value.address.statics.map Arena.cidr)) =
      .ok (value.address.statics.map Arena.cidr) := decode_strings (by omega)
  have entries : (value.address.statics.map Arena.cidr).mapM Decode.staticAddress = .ok value.address.statics :=
    Fallible.mapM_map fun entry member => decode_staticAddress (printable.statics entry member)
  have gateway : Decode.optionalText (Arena.maybeText (value.address.gateway.map Ipv4Addr.display)) =
      .ok (value.address.gateway.map Ipv4Addr.display) :=
    decode_maybeText (show textExtent (value.address.gateway.map Ipv4Addr.display) < 2 ^ 64 by omega)
  have gateway6 : Decode.optionalText (Arena.maybeText (value.address.gateway6.map Ipv6Addr.display)) =
      .ok (value.address.gateway6.map Ipv6Addr.display) :=
    decode_maybeText (show textExtent (value.address.gateway6.map Ipv6Addr.display) < 2 ^ 64 by omega)
  have texts : Decode.strings (Arena.strings (value.dns.servers.map IpAddr.display)) =
      .ok (value.dns.servers.map IpAddr.display) := decode_strings (by omega)
  have servers : ((value.dns.servers.map IpAddr.display).mapM fun text => Decode.parsed (parseIpAddr text)) =
      .ok value.dns.servers := by
    apply Fallible.mapM_map
    intro address member
    rw [printable.servers address member]
    rfl
  have domains : Decode.strings (Arena.strings value.dns.domains) = .ok value.dns.domains := decode_strings (by omega)
  have route : (value.dns.defaultRoute.map flag).map (fun route => decide (route ≠ 0)) = value.dns.defaultRoute := by
    cases value.dns.defaultRoute with
    | none => rfl
    | some route => exact congrArg some (decode_flag route)
  rw [Decode.profile, Arena.profile]
  dsimp only
  simp only [path, statics, entries, decode_onExpiry, gateway, gateway6, decode_transposed printable.gateway,
    decode_transposed printable.gateway6, texts, servers, domains, Fallible.ok_bind, decode_flag, decode_optional,
    route]
  rfl

/-- Results cross the boundary: whatever fits in memory reads back as it was, of a profile given that its addresses do
as text. -/
theorem results_cross :
    (∀ value : Wire.Status, statusExtent value < 2 ^ 64 → Decode.status (some (Arena.status value)) = .ok value) ∧
      (∀ value : Wire.Snapshot, snapshotExtent value < 2 ^ 64 →
        Decode.snapshot (some (Arena.snapshot value)) = .ok value) ∧
      ∀ value : Model.Profile, profileExtent value < 2 ^ 64 → Printable value →
        Decode.profile (some (Arena.profile value)) = .ok value :=
  ⟨fun _ => decode_status, fun _ => decode_snapshot, fun _ => decode_profile⟩

/-- A status with a text that is absent, one that is empty, and a lease. -/
def sampleStatus : Wire.Status where
  hostname := "host"
  level := .routed
  interfaces :=
    [{ ifid := "eth0", rule := some "", addresses := ["10.0.0.2/8", ""],
       lease := some { server := "10.0.0.1", duration := 3600 } }]

/-- A snapshot with a scope that has an empty text and one that has nothing. -/
def sampleSnapshot : Wire.Snapshot where
  hostname := "host"
  scopes :=
    [{ ifid := "eth0", name := "eth0", servers := ["10.0.0.1", ""], domains := ["example.org"], ntp := ["10.0.0.3"],
       addresses := ["10.0.0.2/8"], defaultRoute := true, metric := 100, level := .routed }, { exclusive := true }]

/-- A profile with addresses of both families. -/
def sampleProfile : Model.Profile where
  path := "Wired"
  enabled := true
  address :=
    { statics := [⟨.v4 0x0a000002#32, 8⟩, ⟨.v6 0x20010db8000000000000000000000001#128, 64⟩]
      gateway := some 0x0a000001#32
      gateway6 := some 0xfe800000000000000000000000000001#128
      mtu := some 1500 }
  dns :=
    { servers := [.v4 0x0a000001#32, .v6 1#128]
      domains := ["example.org"]
      defaultRoute := some false }

theorem samples_cross :
    Decode.status (some (Arena.status sampleStatus)) = .ok sampleStatus ∧
      Decode.snapshot (some (Arena.snapshot sampleSnapshot)) = .ok sampleSnapshot ∧
      Decode.profile (some (Arena.profile sampleProfile)) = .ok sampleProfile := by
  have printable : Printable sampleProfile := by
    refine ⟨?_, ?_, ?_, ?_⟩
    · rintro address ⟨⟩
      decide +kernel
    · rintro address ⟨⟩
      decide +kernel
    · exact List.forall_mem_cons.mpr ⟨by decide +kernel, List.forall_mem_singleton.mpr (by decide +kernel)⟩
    · exact List.forall_mem_cons.mpr ⟨by decide +kernel, List.forall_mem_singleton.mpr (by decide +kernel)⟩
  exact ⟨results_cross.1 _ (by decide +kernel), results_cross.2.1 _ (by decide +kernel),
    results_cross.2.2 _ (by decide +kernel) printable⟩

end Netd.Model.Abi
