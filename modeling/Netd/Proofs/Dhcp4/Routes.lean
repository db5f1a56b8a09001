import Netd.Proofs.Dhcp4.Shape
import Netd.Proofs.Octets

/-! # Classless routes

Option 121 is a sequence of entries, or nothing at all. An ACK whose routes are malformed or missing is read
as one without them.
-/

namespace Netd.Model.Dhcp4

/-- An entry of option 121: the width of a destination, its significant octets, and a gateway. -/
structure Entry where
  width : U8
  destination : Bytes
  gateway : Bytes
  narrow : width.toNat ≤ 32
  significant : destination.length = (width.toNat + 7) / 8
  whole : gateway.length = 4

namespace Entry

def octets (entry : Entry) : Bytes := entry.width :: (entry.destination ++ entry.gateway)

/-- The route of an entry; octets that are not significant are zero. -/
def route (entry : Entry) : StaticRoute where
  destination := fromBeBytes (entry.destination ++ List.replicate (4 - entry.destination.length) 0)
  prefixLength := entry.width
  gateway := fromBeBytes entry.gateway

end Entry

/-! ## All or nothing -/

theorem take_append_zeros {destination : Bytes} (short : destination.length ≤ 4) :
    (destination ++ List.replicate 4 0).take 4 = destination ++ List.replicate (4 - destination.length) 0 := by
  rw [List.take_append, List.take_of_length_le short, List.take_replicate]
  congr 2
  omega

/-- An entry in front of others is read first. -/
theorem decodeClasslessRoutes_entry (entry : Entry) (rest : Bytes) :
    decodeClasslessRoutes (entry.octets ++ rest) = (decodeClasslessRoutes rest).map (entry.route :: ·) := by
  have significant := entry.significant
  have narrow := entry.narrow
  have spelled : entry.octets ++ rest = entry.width :: (entry.destination ++ (entry.gateway ++ rest)) := by
    rw [Entry.octets, List.cons_append, List.append_assoc]
  have destination : (entry.destination ++ (entry.gateway ++ rest)).take ((entry.width.toNat + 7) / 8) =
      entry.destination := List.take_left' significant
  have behind : (entry.destination ++ (entry.gateway ++ rest)).drop ((entry.width.toNat + 7) / 8) =
      entry.gateway ++ rest := List.drop_left' significant
  rw [spelled, decodeClasslessRoutes.eq_def]
  dsimp only
  rw [if_neg (Nat.not_lt.mpr narrow), destination, behind, List.take_left' entry.whole, List.drop_left' entry.whole,
    if_neg (by omega), if_neg (by rw [entry.whole]; decide), take_append_zeros (by omega)]
  rfl

/-- What is read is entry after entry, to the end. -/
theorem decodeClasslessRoutes_eq_some_iff {octets : Bytes} {routes : List StaticRoute} :
    decodeClasslessRoutes octets = some routes ↔
      ∃ entries : List Entry, octets = entries.flatMap Entry.octets ∧ routes = entries.map Entry.route := by
  constructor
  · intro read
    fun_induction decodeClasslessRoutes octets generalizing routes with
    | case1 =>
      obtain rfl := Option.some.inj read
      exact ⟨[], rfl, rfl⟩
    | case2 | case3 | case4 => contradiction
    | case5 width rest narrow octets destination gateway enough whole =>
      rename_i ih
      obtain ⟨later, found, rfl⟩ := Option.map_eq_some_iff.mp read
      obtain ⟨entries, spelled, rfl⟩ := ih found
      have significant : destination.length = (width.toNat + 7) / 8 := by
        have most := List.length_take_le octets rest
        exact Nat.le_antisymm most (Nat.not_lt.mp enough)
      have four : gateway.length = 4 :=
        Nat.le_antisymm (List.length_take_le 4 _) (Nat.not_lt.mp whole)
      let entry : Entry := ⟨width, destination, gateway, Nat.not_lt.mp narrow, significant, four⟩
      refine ⟨entry :: entries, ?_, ?_⟩
      · rw [List.flatMap_cons, ← spelled]
        change width :: rest = width :: (destination ++ gateway ++ _)
        rw [List.append_assoc, List.take_append_drop, List.take_append_drop]
      · rw [List.map_cons, take_append_zeros (by omega)]
        rfl
  · rintro ⟨entries, rfl, rfl⟩
    induction entries with
    | nil => rw [List.flatMap_nil, decodeClasslessRoutes]; rfl
    | cons entry later ih => rw [List.flatMap_cons, decodeClasslessRoutes_entry, ih]; rfl

/-! ## Without the option -/

namespace Options

/-- The options without those of a code. -/
def without (options : Options) (code : U8) : Options := options.filter fun entry => decide (entry.1 ≠ code)

theorem get_without_self (options : Options) (code : U8) : (options.without code).get code = none := by
  rw [get, Option.map_eq_none_iff, List.find?_eq_none]
  intro entry kept
  simpa using (List.mem_filter.mp kept).2

theorem get_without {options : Options} {code other : U8} (apart : other ≠ code) :
    (options.without code).get other = options.get other := by
  rw [get, get, without, List.find?_filter]
  congr 2
  funext entry
  by_cases same : entry.1 = other
  · simp [same, apart]
  · simp [same]

end Options

namespace Lease

/-- A message is read as a lease by what it has under each code. -/
theorem fromAck_congr {first second : Message} (address : first.yiaddr = second.yiaddr)
    (routes : ((first.options.get option.classlessStaticRoute).bind decodeClasslessRoutes).getD [] =
      ((second.options.get option.classlessStaticRoute).bind decodeClasslessRoutes).getD [])
    (others : ∀ code, code ≠ option.classlessStaticRoute → first.options.get code = second.options.get code) :
    fromAck first = fromAck second := by
  have ipv4 {code : U8} (apart : code ≠ option.classlessStaticRoute) :
      first.options.ipv4 code = second.options.ipv4 code := by rw [Options.ipv4, others code apart]; rfl
  have ipv4List {code : U8} (apart : code ≠ option.classlessStaticRoute) :
      first.options.ipv4List code = second.options.ipv4List code := by
    rw [Options.ipv4List, others code apart]
    rfl
  have u32 {code : U8} (apart : code ≠ option.classlessStaticRoute) :
      first.options.u32 code = second.options.u32 code := by rw [Options.u32, others code apart]; rfl
  have u16 {code : U8} (apart : code ≠ option.classlessStaticRoute) :
      first.options.u16 code = second.options.u16 code := by rw [Options.u16, others code apart]; rfl
  have string {code : U8} (apart : code ≠ option.classlessStaticRoute) :
      first.options.string code = second.options.string code := by rw [Options.string, others code apart]; rfl
  have t1 : renewalTime first.options = renewalTime second.options := by
    funext leaseTime
    rw [renewalTime, renewalTime, u32 (by decide)]
  have t2 : rebindingTime first.options = rebindingTime second.options := by
    funext leaseTime t1
    rw [rebindingTime, rebindingTime, u32 (by decide)]
  rw [fromAck, fromAck]
  dsimp only
  rw [address, routes, ipv4 (by decide), u32 (by decide), ipv4 (by decide), ipv4List (by decide), ipv4List (by decide),
    string (by decide), others option.domainSearch (by decide), string (by decide), u16 (by decide), ipv4 (by decide),
    ipv4List (by decide), t1, t2]

/-- Without routes that can be read, an ACK is read as if there were none. -/
theorem fromAck_without {message : Message}
    (none : ((message.options.get option.classlessStaticRoute).bind decodeClasslessRoutes).getD [] = []) :
    fromAck message =
      fromAck { message with options := message.options.without option.classlessStaticRoute } := by
  refine @fromAck_congr message { message with options := _ } rfl ?_ ?_
  · rw [none, Options.get_without_self]
    rfl
  · intro code apart
    exact (Options.get_without apart).symm

/-- Option 121 as a message has it: no sequence of entries, or an empty one. -/
def Routeless (octets : Bytes) : Prop :=
  ∀ entries : List Entry, octets = entries.flatMap Entry.octets → entries = []

theorem decode_routeless {octets : Bytes} (routeless : Routeless octets) :
    (decodeClasslessRoutes octets).getD [] = [] := by
  cases read : decodeClasslessRoutes octets with
  | none => rfl
  | some routes =>
    obtain ⟨entries, spelled, rfl⟩ := decodeClasslessRoutes_eq_some_iff.mp read
    rw [routeless entries spelled]
    rfl

/-- Entries in a message are the routes of its lease, and the only way out. -/
theorem fromAck_entries {message : Message} {lease : Lease} {entries : List Entry} (nonempty : entries ≠ [])
    (present : message.options.get option.classlessStaticRoute = some (entries.flatMap Entry.octets))
    (accepted : fromAck message = some lease) :
    lease.routers = [] ∧
      lease.gateway = ((entries.map Entry.route).find? fun route => decide (route.prefixLength = 0)).map
        StaticRoute.gateway := by
  have read := fromAck_read accepted
  have static := read.staticRoutes
  rw [present, Option.bind_some, decodeClasslessRoutes_eq_some_iff.mpr ⟨entries, rfl, rfl⟩, Option.getD_some] at static
  have none : lease.routers = [] := by
    rw [read.routers, static, if_neg (by simpa using nonempty)]
  refine ⟨none, ?_⟩
  rw [gateway, none, static, List.head?_nil, Option.none_or]

/-- Option 121 is all or nothing. -/
theorem routes_all_or_nothing :
    (∀ octets routes, decodeClasslessRoutes octets = some routes ↔
      ∃ entries : List Entry, octets = entries.flatMap Entry.octets ∧ routes = entries.map Entry.route) ∧
    (∀ octets, decodeClasslessRoutes octets = none ↔
      ¬∃ entries : List Entry, octets = entries.flatMap Entry.octets) ∧
    (∀ message octets, message.options.get option.classlessStaticRoute = some octets → Routeless octets →
      fromAck message =
          fromAck { message with options := message.options.without option.classlessStaticRoute } ∧
        ∀ lease, fromAck message = some lease → lease.routers = message.options.ipv4List option.router) ∧
    ∀ message (entries : List Entry) lease, entries ≠ [] →
      message.options.get option.classlessStaticRoute = some (entries.flatMap Entry.octets) →
      fromAck message = some lease →
      lease.routers = [] ∧
        lease.gateway = ((entries.map Entry.route).find? fun route => decide (route.prefixLength = 0)).map
          StaticRoute.gateway := by
  refine ⟨fun _ _ => decodeClasslessRoutes_eq_some_iff, ?_, ?_, fun _ _ _ => fromAck_entries⟩
  · intro octets
    rw [Option.eq_none_iff_forall_ne_some]
    constructor
    · rintro unread ⟨entries, spelled⟩
      exact unread _ (decodeClasslessRoutes_eq_some_iff.mpr ⟨entries, spelled, rfl⟩)
    · intro unspelled routes read
      obtain ⟨entries, spelled, -⟩ := decodeClasslessRoutes_eq_some_iff.mp read
      exact unspelled ⟨entries, spelled⟩
  · intro message octets present routeless
    have none : ((message.options.get option.classlessStaticRoute).bind decodeClasslessRoutes).getD [] = [] := by
      rw [present]
      exact decode_routeless routeless
    refine ⟨fromAck_without none, ?_⟩
    intro lease accepted
    have read := fromAck_read accepted
    rw [read.routers, read.staticRoutes, none]
    rfl

/-- An ACK with routes: one to 10.0.0.0/8, then a default route. -/
def routed (width : U8) : Message :=
  { Message.request 7 0x020000000001 with
    yiaddr := 0xc0a80142
    options :=
      [(option.serverId, [192, 168, 0, 1]), (option.leaseTime, [0, 0, 14, 16]), (option.router, [192, 168, 0, 3]),
        (option.classlessStaticRoute, [8, 10, 192, 168, 0, 1, width, 192, 168, 0, 2])] }

/-- With a width of 0 its last entry is the way out, with one of 33 all of it is dropped. -/
theorem routed_all_or_nothing :
    (∃ lease, fromAck (routed 0) = some lease ∧ lease.routers = [] ∧ lease.gateway = some 0xc0a80002) ∧
      ∃ lease, fromAck (routed 33) = some lease ∧ lease.routers = [0xc0a80003] := by
  obtain ⟨-, malformed, dropped, taken⟩ := routes_all_or_nothing
  constructor
  · obtain ⟨lease, accepted⟩ := Option.isSome_iff_exists.mp (show (fromAck (routed 0)).isSome = true by rfl)
    let entries : List Entry :=
      [⟨8, [10], [192, 168, 0, 1], by decide, rfl, rfl⟩, ⟨0, [], [192, 168, 0, 2], by decide, rfl, rfl⟩]
    exact ⟨lease, accepted, taken (routed 0) entries lease (List.cons_ne_nil _ _) rfl accepted⟩
  · obtain ⟨lease, accepted⟩ := Option.isSome_iff_exists.mp (show (fromAck (routed 33)).isSome = true by rfl)
    have unread : decodeClasslessRoutes [8, 10, 192, 168, 0, 1, 33, 192, 168, 0, 2] = none := by
      simp [decodeClasslessRoutes]
    have routeless : Routeless [8, 10, 192, 168, 0, 1, 33, 192, 168, 0, 2] :=
      fun entries spelled => absurd ⟨entries, spelled⟩ ((malformed _).mp unread)
    exact ⟨lease, accepted, (dropped (routed 33) _ rfl routeless).2 lease accepted⟩

end Lease

end Netd.Model.Dhcp4
