import Netd.Model.Rtnl
import Netd.Proofs.Interface.Offers
import Netd.Proofs.Netlink.Current
import Netd.Proofs.Reconcile.Broadcast
import Netd.Proofs.Reconcile.Ownership

/-! # Requests say what was planned

What netd sends for a planned route reads back as that very route, and what a kernel that keeps its word reports
of a planned address reads back as that very address. A route without a destination attribute goes everywhere, so
this rests on every planned route with no prefix being a default route.
-/

namespace Netd.Model.Netlink

open Reconcile (Desired Op plan)

/-! ## Routes -/

/-- A route that has no prefix goes everywhere. -/
def Everywhere (prefixLength : U8) (destination : IpAddr) : Prop :=
  prefixLength = 0 → destination = .v4 Ipv4Addr.unspecified ∨ destination = .v6 Ipv6Addr.unspecified

theorem routeFromMessage_routeMessage {r : Route} (everywhere : Everywhere r.prefixLength r.destination) :
    routeFromMessage (routeMessage r) = some r := by
  obtain ⟨index, destination, prefixLength, gateway, metric, protocol⟩ := r
  rw [routeFromMessage, if_neg (by simp [routeMessage]), routeMessage]
  dsimp only at everywhere ⊢
  have metric0 : ¬0 < metric → metric = 0 := fun none => BitVec.le_zero_iff.mp (not_lt.mp none)
  have prefix0 : ¬0 < prefixLength → prefixLength = 0 := fun none => BitVec.le_zero_iff.mp (not_lt.mp none)
  split_ifs with further measured
  · cases destination <;> cases gateway <;> rfl
  · obtain rfl := metric0 measured
    cases destination <;> cases gateway <;> rfl
  · obtain rfl := prefix0 further
    obtain rfl | rfl := everywhere rfl <;> cases gateway <;> rfl
  · obtain rfl := prefix0 further
    obtain rfl := metric0 ‹_›
    obtain rfl | rfl := everywhere rfl <;> cases gateway <;> rfl

/-- The kernel names no destination for a route without a prefix. -/
def RouteMessage.Plain (m : RouteMessage) : Prop :=
  m.prefixLength = 0 → ∀ destination, RouteAttribute.destination destination ∉ m.attributes

theorem lastOf_eq_none {α β : Type*} {select : α → Option β} {items : List α}
    (nothing : ∀ item ∈ items, select item = none) : lastOf select items = none := by
  rw [lastOf]
  induction items with
  | nil => rfl
  | cons item rest ih =>
    obtain ⟨first, others⟩ := List.forall_mem_cons.mp nothing
    rw [List.foldl_cons, first, Option.none_or]
    exact ih others

theorem everywhere_of_message {m : RouteMessage} (plain : m.Plain) {r : Route} (read : routeFromMessage m = some r) :
    Everywhere r.prefixLength r.destination := by
  rw [routeFromMessage] at read
  split_ifs at read
  obtain ⟨family, -, read⟩ := Option.bind_eq_some_iff.mp read
  obtain ⟨index, -, rfl⟩ := Option.map_eq_some_iff.mp read
  intro none
  dsimp only
  rw [lastOf_eq_none]
  · cases family
    · exact .inl rfl
    · exact .inr rfl
  · intro named member
    cases named with
    | destination d => exact absurd member (plain none d)
    | _ => rfl

/-! ## Addresses -/

/-- What a kernel that keeps its word says of an address it was given, by the message that asked for it and by
whether duplicate address detection is going on: where it is, the addresses that were named, and flags. A
preferred lifetime of zero is what it calls deprecated. -/
structure Reports (report : AddressMessage → Bool → AddressReport) : Prop where
  index : ∀ m tentative, (report m tentative).index = m.index
  prefixLength : ∀ m tentative, (report m tentative).prefixLength = m.prefixLength
  header : ∀ m tentative, (report m tentative).headerTentative = tentative
  localAddress : ∀ m tentative ip,
    .localAddress ip ∈ (report m tentative).attributes ↔ .localAddress ip ∈ m.attributes
  address : ∀ m tentative ip, .address ip ∈ (report m tentative).attributes ↔ .address ip ∈ m.attributes
  flagged : ∀ m tentative, ∃ flags, .flags flags ∈ (report m tentative).attributes
  deprecated : ∀ m tentative flags, .flags flags ∈ (report m tentative).attributes →
    (flags.deprecated = true ↔ ∃ valid, .cacheInfo 0 valid ∈ m.attributes)
  noPrefixRoute : ∀ m tentative flags, .flags flags ∈ (report m tentative).attributes →
    (flags.noPrefixRoute = true ↔ .noPrefixRoute ∈ m.attributes)
  tentative : ∀ m tentative flags, .flags flags ∈ (report m tentative).attributes → flags.tentative = tentative

theorem lastOf_concat {α β : Type*} (select : α → Option β) (items : List α) (item : α) :
    lastOf select (items ++ [item]) = (select item).or (lastOf select items) := by
  rw [lastOf, List.foldl_concat]
  rfl

/-- What is selected, where only attributes of one kind are looked at and they all say the same. -/
theorem lastOf_eq_some {α β : Type*} {select : α → Option β} {make : β → α} {items : List α} {value : β}
    (there : make value ∈ items) (only : ∀ other, make other ∈ items → other = value)
    (reads : ∀ item other, select item = some other ↔ item = make other) : lastOf select items = some value := by
  induction items using List.reverseRecOn with
  | nil => cases there
  | append_singleton before last ih =>
    rw [lastOf_concat]
    cases chosen : select last with
    | some other =>
      have named := (reads last other).mp chosen
      rw [only other (List.mem_append_right _ (List.mem_singleton.mpr named.symm))]
      rfl
    | none =>
      obtain earlier | same := List.mem_append.mp there
      · exact ih earlier fun other member => only other (List.mem_append_left _ member)
      · rw [(reads last value).mpr (List.mem_singleton.mp same).symm] at chosen
        cases chosen

section Reports

variable {report : AddressMessage → Bool → AddressReport} (reports : Reports report)

include reports

/-- What comes back of a message with one address, by what its attributes say. -/
theorem Reports.read {m : AddressMessage} {ip : IpAddr} {deprecated noPrefixRoute : Bool}
    (address : ∀ other, .address other ∈ m.attributes ↔ other = ip)
    (own : ∀ other, .localAddress other ∈ m.attributes → other = ip)
    (stale : deprecated = true ↔ ∃ valid, .cacheInfo 0 valid ∈ m.attributes)
    (bare : noPrefixRoute = true ↔ .noPrefixRoute ∈ m.attributes) (tentative : Bool) :
    addressFromMessage (report m tentative) =
      some ⟨m.index, ip, m.prefixLength, deprecated, noPrefixRoute, tentative⟩ := by
  have same (flags : AddressFlags) (member : .flags flags ∈ (report m tentative).attributes) :
      flags = ⟨deprecated, noPrefixRoute, tentative⟩ := by
    obtain ⟨d, n, t⟩ := flags
    have old : d = deprecated := Bool.eq_iff_iff.mpr ((reports.deprecated m tentative _ member).trans stale.symm)
    have alone : n = noPrefixRoute :=
      Bool.eq_iff_iff.mpr ((reports.noPrefixRoute m tentative _ member).trans bare.symm)
    have detected : t = tentative := reports.tentative m tentative _ member
    rw [old, alone, detected]
  obtain ⟨flags, flagged⟩ := reports.flagged m tentative
  rw [same flags flagged] at flagged
  have named := (reports.address m tentative ip).mpr ((address ip).mpr rfl)
  rw [addressFromMessage, lastOf_eq_some named fun other there => (address other).mp
    ((reports.address m tentative other).mp there)]
  · rw [lastOf_eq_some flagged same, reports.index, reports.prefixLength, reports.header]
    · by_cases mine : .localAddress ip ∈ (report m tentative).attributes
      · rw [lastOf_eq_some mine fun other there => own other ((reports.localAddress m tentative other).mp there)]
        · cases ip <;> simp
        · intro item other
          cases item <;> simp
      · rw [lastOf_eq_none]
        · cases ip <;> simp
        · intro item there
          cases item with
          | localAddress other =>
            have same := own other ((reports.localAddress m tentative other).mp there)
            exact absurd (same ▸ there) mine
          | _ => rfl
    · intro item other
      cases item <;> simp
  · intro item other
    cases item <;> simp

end Reports

theorem addressFromMessage_report {report : AddressMessage → Bool → AddressReport} (reports : Reports report)
    (a : Address) (four : ∀ ip, a.address = .v4 ip → a.deprecated = false ∧ a.noPrefixRoute = false)
    (broadcast : Option Ipv4Addr) (tentative : Bool) :
    addressFromMessage (report (addressMessage a broadcast) tentative) = some { a with tentative } := by
  obtain ⟨index, address, prefixLength, deprecated, noPrefixRoute, detected⟩ := a
  cases address with
  | v4 ip =>
    obtain ⟨rfl, rfl⟩ := four ip rfl
    refine reports.read ?_ ?_ ?_ ?_ tentative
    all_goals
      rw [addressMessage]
      simp
  | v6 ip =>
    refine reports.read ?_ ?_ ?_ ?_ tentative
    all_goals
      rw [addressMessage]
      simp

/-! ## Planned operations -/

end Netd.Model.Netlink

namespace Netd.Model.Interface

open Reconcile (Desired)

/-- Every route that is no default route has a prefix. -/
def Further (d : Desired) : Prop := ∀ entry ∈ d.routes, entry.2.1 ≠ 0

theorem further_preserve {metric : U32} {routes : List Route} {d : Desired} (further : Further d) :
    Further (routes.foldl (Restart.preserveRoute metric) d) := by
  induction routes generalizing d with
  | nil => exact further
  | cons route rest ih =>
    refine ih ?_
    rw [Restart.preserveRoute]
    split
    · split_ifs with none
      · exact further
      · intro entry member
        obtain before | new := List.mem_append.mp member
        · exact further entry before
        · obtain rfl := List.mem_singleton.mp new
          exact none
    · exact further

theorem further_desired {i : Interface} {now : ℕ} {d : Desired} (wanted : i.desired now = some d) : Further d := by
  rw [desired] at wanted
  split_ifs at wanted
  cases outcome : i.outcome with
  | ignore =>
    rw [outcome] at wanted
    cases wanted
  | down =>
    rw [outcome] at wanted
    obtain rfl := Option.some.inj wanted
    exact fun _ member => absurd member List.not_mem_nil
  | join p =>
    rw [outcome] at wanted
    obtain rfl := Option.some.inj wanted
    have leased : ∀ entry ∈ leaseRoutes i.lease p.address.routeOffered i.metric, entry.2.1 ≠ 0 := by
      intro entry member none
      rw [leaseRoutes] at member
      split_ifs at member
      · obtain ⟨lease, _, given⟩ := List.mem_flatMap.mp member
        obtain ⟨route, kept, rfl⟩ := List.mem_map.mp given
        have long := of_decide_eq_true (List.mem_filter.mp kept).2
        exact absurd (none ▸ long) (lt_irrefl _)
      · cases member
    have without : Further { withLinkLocal i.linkLocal (i.lease.isNone && p.address.statics.isEmpty)
        (withLease i.lease p.address.routeOffered i.metric (withStatics p.address.statics
          { index := i.link.index, up := true, mtu := mtuOf p.address i.lease (i.routers now).mtu })) with
        defaultRoute := (gatewayOf p.address i.lease).map fun g => (g, i.metric) } := by
      simpa only [Further, withLinkLocal_eq, withLease_eq, withStatics_eq, List.nil_append] using leased
    rw [joined]
    change Further (withRestart _ _ _ _)
    cases i.restart with
    | none => exact without
    | some restart =>
      rw [withRestart, Restart.preserve]
      split_ifs
      · exact further_preserve without
      · exact without

end Netd.Model.Interface

namespace Netd.Model.Netlink

open Reconcile (Desired Op plan)

section Requests

variable (isWireless : String → Bool) {ε : Type*}

theorem dumpLinks_frame (out : Observed) (messages : List LinkMessage) :
    (dumpLinks isWireless out messages).routes = out.routes := by
  rw [dumpLinks]
  induction messages generalizing out with
  | nil => rfl
  | cons message rest ih => exact (ih _).trans rfl

/-- The routes of a dump are those of the two route tables. -/
theorem mem_dump_routes {tables : (table : Table) → List table.Message} {observed : Observed}
    (dumped : (dump isWireless fun table => (.ok (tables table) : Except ε _)) = .ok observed) {r : Route}
    (member : r ∈ observed.routes) :
    ∃ family, ∃ m ∈ (tables (.routes family) : List RouteMessage), routeFromMessage m = some r := by
  obtain rfl := Except.ok.inj dumped
  change r ∈ ((dumpLinks isWireless Observed.default (tables .links)).routes ++
    (tables (.routes .inet) : List RouteMessage).filterMap routeFromMessage) ++
      (tables (.routes .inet6) : List RouteMessage).filterMap routeFromMessage at member
  rw [dumpLinks_frame, List.mem_append, List.mem_append, List.mem_filterMap, List.mem_filterMap] at member
  obtain (none | four) | six := member
  · cases none
  · exact ⟨.inet, four⟩
  · exact ⟨.inet6, six⟩

/-- What a request of an operation says is the operation. -/
def ReadsBack (report : AddressMessage → Bool → AddressReport) : Op → Prop
  | .addRoute r | .delRoute r => routeFromMessage (routeMessage r) = some r
  | .addAddress a broadcast => ∀ tentative,
    addressFromMessage (report (addressMessage a broadcast) tentative) = some { a with tentative }
  | .delAddress a => (addressMessage a none).entry.key = a.key
  | .linkUp _ | .linkDown _ | .mtu _ _ => True

variable {isWireless}

theorem wanted_everywhere {d : Desired} (further : Interface.Further d) {r : Route}
    (member : r ∈ Reconcile.wantRoutes d) :
    Everywhere r.prefixLength r.destination := by
  obtain four | six := Reconcile.mem_wantRoutes.mp member
  · rw [Reconcile.wantRoutes4, List.mem_append, List.mem_map, Option.mem_toList, Option.map_eq_some_iff] at four
    obtain ⟨entry, listed, rfl⟩ | ⟨_, _, rfl⟩ := four
    · exact fun none => absurd none (further entry listed)
    · exact fun _ => .inl rfl
  · obtain ⟨_, _, _, rfl⟩ := Reconcile.mem_wantDefault6 six
    exact fun _ => .inr rfl

/-- Whatever the kernel reports and whatever the interface's clients, profile and restart ask for, the requests
of a plan say what was planned: a route comes back as the very route, an address as the very address, and one
that goes is named by its interface, address and prefix. -/
theorem requests_read_back {report : AddressMessage → Bool → AddressReport} (reports : Reports report)
    {tables : (table : Table) → List table.Message}
    (plain : ∀ family, ∀ m ∈ (tables (.routes family) : List RouteMessage), m.Plain) {observed : Observed}
    (dumped : (dump isWireless fun table => (.ok (tables table) : Except ε _)) = .ok observed) {i : Interface}
    {now : ℕ} {d : Desired} (wanted : i.desired now = some d) {op : Op} (planned : op ∈ plan observed d) :
    ReadsBack report op := by
  obtain ⟨link, up | mtu | address | route | down⟩ := Reconcile.mem_plan planned
  · obtain rfl := Reconcile.mem_planLinkUp up
    trivial
  · obtain ⟨_, rfl⟩ := Reconcile.mem_planMtu mtu
    trivial
  · obtain ⟨a, _, rfl⟩ | ⟨a, comes, rfl⟩ := Reconcile.mem_planAddresses.mp address
    · exact key_entry a none
    · refine fun tentative => addressFromMessage_report reports a ?_ d.broadcast tentative
      obtain ⟨entry, _, rfl⟩ | ⟨entry, _, rfl⟩ := Reconcile.mem_wantAddresses.mp (KeyedTable.mem_missing.mp comes).1
      · exact fun _ _ => ⟨rfl, rfl⟩
      · exact fun _ four => nomatch four
  · obtain ⟨r, goes, rfl⟩ | ⟨r, comes, rfl⟩ := Reconcile.mem_planRoutes.mp route
    · have stored := (Reconcile.mem_haveRoutes.mp (KeyedTable.mem_stale.mp goes).1).1
      obtain ⟨family, m, listed, read⟩ := mem_dump_routes isWireless dumped stored
      exact routeFromMessage_routeMessage (everywhere_of_message (plain family m listed) read)
    · have asked := (KeyedTable.mem_missing.mp comes).1
      exact routeFromMessage_routeMessage (wanted_everywhere (Interface.further_desired wanted) asked)
  · obtain rfl := Reconcile.mem_planLinkDown down
    trivial

end Requests

/-! ## An address and a default route -/

def plainAttribute : AddressAttribute → ReportedAttribute
  | .localAddress ip => .localAddress ip
  | .address ip => .address ip
  | .broadcast _ | .noPrefixRoute | .cacheInfo _ _ => .other

/-- A kernel that keeps its word: the addresses it was told, and flags behind them. -/
def plainReport (m : AddressMessage) (tentative : Bool) : AddressReport where
  index := m.index
  prefixLength := m.prefixLength
  headerTentative := tentative
  attributes := m.attributes.map plainAttribute ++
    [.flags ⟨m.entry.address.deprecated, m.attributes.contains .noPrefixRoute, tentative⟩]

/-- What is reported of an attribute is reported of it alone. -/
theorem mem_plainReport {m : AddressMessage} {tentative : Bool} {asked : AddressAttribute} {item : ReportedAttribute}
    (only : ∀ other, plainAttribute other = item ↔ other = asked) (apart : ∀ flags, item ≠ .flags flags) :
    item ∈ (plainReport m tentative).attributes ↔ asked ∈ m.attributes := by
  constructor
  · intro member
    obtain told | last := List.mem_append.mp member
    · obtain ⟨other, there, same⟩ := List.mem_map.mp told
      exact (only other).mp same ▸ there
    · exact absurd (List.mem_singleton.mp last) (apart _)
  · exact fun there => List.mem_append_left _ (List.mem_map.mpr ⟨asked, there, (only asked).mpr rfl⟩)

theorem flags_plainReport {m : AddressMessage} {tentative : Bool} {flags : AddressFlags}
    (member : .flags flags ∈ (plainReport m tentative).attributes) :
    flags = ⟨m.entry.address.deprecated, m.attributes.contains .noPrefixRoute, tentative⟩ := by
  obtain told | last := List.mem_append.mp member
  · obtain ⟨asked, -, same⟩ := List.mem_map.mp told
    cases asked <;> cases same
  · exact ReportedAttribute.flags.inj (List.mem_singleton.mp last)

theorem plainReport_reports : Reports plainReport where
  index _ _ := rfl
  prefixLength _ _ := rfl
  header _ _ := rfl
  localAddress m tentative ip := by
    refine mem_plainReport (fun other => ?_) fun _ same => by cases same
    cases other <;> simp [plainAttribute]
  address m tentative ip := by
    refine mem_plainReport (fun other => ?_) fun _ same => by cases same
    cases other <;> simp [plainAttribute]
  flagged m tentative := ⟨_, List.mem_append_right _ (List.mem_singleton_self _)⟩
  deprecated m tentative flags member := by
    rw [flags_plainReport member, AddressMessage.entry]
    dsimp only
    rw [List.any_eq_true]
    constructor
    · rintro ⟨asked, there, zero⟩
      cases asked with
      | cacheInfo preferred valid => exact ⟨valid, eq_of_beq zero ▸ there⟩
      | _ => cases zero
    · rintro ⟨valid, there⟩
      exact ⟨_, there, rfl⟩
  noPrefixRoute m tentative flags member := by
    rw [flags_plainReport member]
    exact List.contains_iff_mem
  tentative m tentative flags member := by rw [flags_plainReport member]

/-- One interface that is up, with a default route of netd's over another gateway. -/
def sampleTables : (table : Table) → List table.Message
  | .links => [⟨2, etherType, true, true, false, [.ifName "eth0", .mtu 1500]⟩]
  | .addresses _ => []
  | .routes .inet => [⟨some .inet, 0, rtTableMain, rtprotNetd, scopeUniverse, unicast,
      [.gateway (.v4 0x0a000001), .oif 2, .priority 100]⟩]
  | .routes .inet6 => []

/-- An interface whose profile names an address and its gateway. -/
def sampleInterface : Interface :=
  { Interface.new "eth0" ⟨2, "eth0", none, true, true, false, 1500, 1, .ether⟩ with
    outcome := .join
      { path := "office"
        enabled := true
        address := { statics := [⟨.v4 0x0a000002, 24⟩], gateway := some 0x0a0000fe }
        dns := {} } }

theorem requests_read_back_sample :
    let a := Address.new 2 (.v4 0x0a000002) 24
    let r := Reconcile.netdRoute 2 (.v4 Ipv4Addr.unspecified) 0 (.v4 0x0a0000fe) 100
    ∃ observed d, (dump (fun _ => false) fun table => (.ok (sampleTables table) : Except Unit _)) = .ok observed ∧
      sampleInterface.desired 0 = some d ∧
      (.addAddress a d.broadcast ∈ plan observed d ∧ ReadsBack plainReport (.addAddress a d.broadcast)) ∧
      .addRoute r ∈ plan observed d ∧ ReadsBack plainReport (.addRoute r) := by
  intro a r
  have plain : ∀ family, ∀ m ∈ (sampleTables (.routes family) : List RouteMessage), m.Plain := by
    intro family m member
    cases family with
    | inet =>
      obtain rfl := List.mem_singleton.mp member
      intro _ destination named
      simp at named
    | inet6 => cases member
  let d : Desired :=
    { index := 2, up := true, addresses := [(0x0a000002, 24)], defaultRoute := some (0x0a0000fe, 100) }
  have wanted : sampleInterface.desired 0 = some d := by decide +kernel
  have address : Op.addAddress a d.broadcast ∈ plan ((kernelMirror fun _ => false).image sampleTables) d := by
    decide +kernel
  have route : Op.addRoute r ∈ plan ((kernelMirror fun _ => false).image sampleTables) d := by decide +kernel
  have dumped := dump_image (fun _ => false) (ε := Unit) sampleTables
  exact ⟨_, d, dumped, wanted, ⟨address, requests_read_back plainReport_reports plain dumped wanted address⟩, route,
    requests_read_back plainReport_reports plain dumped wanted route⟩

end Netd.Model.Netlink
