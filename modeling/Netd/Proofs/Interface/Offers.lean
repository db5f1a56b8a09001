import Netd.Model.Interface

/-! # What the network offers and what is taken

The state an interface should have and its part in name resolution are assembled from the profile,
the lease, the kernel state kept over a restart, the routers and DHCPv6. Each part of the result is
read off the assembly here, and with it which of those sources can show in it.
-/

namespace Netd.Model

open Reconcile (Desired DesiredV6)

namespace Interface

/-! ## The stages -/

/-- The IPv4 addresses among statics. -/
def statics4 (statics : List StaticAddress) : List (Ipv4Addr × U8) :=
  statics.filterMap fun s =>
    match s.address with
    | .v4 a => some (a, s.prefixLength)
    | .v6 _ => none

/-- The IPv6 addresses among statics. -/
def statics6 (statics : List StaticAddress) : List DesiredV6 :=
  statics.filterMap fun s =>
    match s.address with
    | .v4 _ => none
    | .v6 a => some ⟨a, s.prefixLength, false, false⟩

theorem withStatics_eq (statics : List StaticAddress) (d : Desired) :
    withStatics statics d =
      { d with
        addresses := d.addresses ++ statics4 statics
        addresses6 := d.addresses6 ++ statics6 statics } := by
  induction statics generalizing d with
  | nil => simp [withStatics, statics4, statics6]
  | cons s rest ih =>
    rw [withStatics, List.foldl_cons]
    refine (ih _).trans ?_
    obtain ⟨a | a, length⟩ := s <;> simp [statics4, statics6]

/-- The addresses a lease gives. -/
def leaseAddresses (lease : Option Dhcp4.Lease) : List (Ipv4Addr × U8) :=
  lease.toList.map fun l => (l.address, l.prefixLength)

/-- The routes a lease gives, where they are taken. -/
def leaseRoutes (lease : Option Dhcp4.Lease) (routeOffered : Bool) (metric : U32) :
    List (Ipv4Addr × U8 × Ipv4Addr × U32) :=
  if routeOffered then
    lease.toList.flatMap fun l => (l.staticRoutes.filter fun r => 0 < r.prefixLength).map
      fun r => (r.destination, r.prefixLength, r.gateway, metric)
  else []

theorem withLease_eq (lease : Option Dhcp4.Lease) (routeOffered : Bool) (metric : U32) (d : Desired) :
    withLease lease routeOffered metric d =
      { d with
        addresses := d.addresses ++ leaseAddresses lease
        broadcast := (lease.map fun l => l.broadcast).getD d.broadcast
        routes := d.routes ++ leaseRoutes lease routeOffered metric } := by
  cases lease with
  | none => cases routeOffered <;> simp [withLease, leaseAddresses, leaseRoutes]
  | some l => cases routeOffered <;> simp [withLease, leaseAddresses, leaseRoutes]

/-- The self-assigned address, while there is no other. -/
def linkLocalAddresses (linkLocal : Option Ipv4Addr) (alone : Bool) : List (Ipv4Addr × U8) :=
  if alone then linkLocal.toList.map fun ll => (ll, 16) else []

theorem withLinkLocal_eq (linkLocal : Option Ipv4Addr) (alone : Bool) (d : Desired) :
    withLinkLocal linkLocal alone d =
      { d with addresses := d.addresses ++ linkLocalAddresses linkLocal alone } := by
  cases linkLocal <;> cases alone <;> simp [withLinkLocal, linkLocalAddresses]

/-- What a kept route leaves alone. -/
theorem preserveRoute_frame (metric : U32) (d : Desired) (route : Route) :
    ∃ defaultRoute routes,
      Restart.preserveRoute metric d route = { d with defaultRoute, routes } ∧
        (d.defaultRoute.isSome = true → defaultRoute = d.defaultRoute) := by
  rw [Restart.preserveRoute]
  split
  · split
    · refine ⟨_, d.routes, rfl, fun given => ?_⟩
      exact Option.or_of_isSome given
    · exact ⟨d.defaultRoute, _, rfl, fun _ => rfl⟩
  · exact ⟨d.defaultRoute, d.routes, rfl, fun _ => rfl⟩

/-- Kept routes show only in the routes, and never in place of a gateway that is there. -/
theorem foldl_preserveRoute_frame (metric : U32) (routes : List Route) (d : Desired) :
    ∃ defaultRoute kept,
      routes.foldl (Restart.preserveRoute metric) d = { d with defaultRoute, routes := kept } ∧
        (d.defaultRoute.isSome = true → defaultRoute = d.defaultRoute) := by
  induction routes generalizing d with
  | nil => exact ⟨d.defaultRoute, d.routes, rfl, fun _ => rfl⟩
  | cons route rest ih =>
    obtain ⟨first, routes, step, given⟩ := preserveRoute_frame metric d route
    obtain ⟨last, kept, run, later⟩ := ih (Restart.preserveRoute metric d route)
    rw [step] at later
    refine ⟨last, kept, ?_, fun there => ?_⟩
    · rw [List.foldl_cons, run, step]
    · have same := given there
      exact (later (show first.isSome = true by rw [same]; exact there)).trans same

/-- The addresses kept over a restart. -/
def restartAddresses (restart : Option Restart) : List (Ipv4Addr × U8) :=
  restart.toList.flatMap fun r => r.addresses

/-- Kernel state kept over a restart shows in the IPv4 addresses, and where routes are taken in the
IPv4 routes. -/
theorem withRestart_frame (restart : Option Restart) (routeOffered : Bool) (metric : U32) (d : Desired) :
    ∃ defaultRoute routes,
      withRestart restart routeOffered metric d =
          { d with addresses := d.addresses ++ restartAddresses restart, defaultRoute, routes } ∧
        (d.defaultRoute.isSome = true → defaultRoute = d.defaultRoute) ∧
        (routeOffered = false ∨ restart = none → defaultRoute = d.defaultRoute ∧ routes = d.routes) := by
  cases restart with
  | none =>
    refine ⟨d.defaultRoute, d.routes, ?_, fun _ => rfl, fun _ => ⟨rfl, rfl⟩⟩
    simp [withRestart, restartAddresses]
  | some r =>
    cases routeOffered with
    | false =>
      refine ⟨d.defaultRoute, d.routes, ?_, fun _ => rfl, fun _ => ⟨rfl, rfl⟩⟩
      simp [withRestart, Restart.preserve, restartAddresses]
    | true =>
      obtain ⟨defaultRoute, routes, run, given⟩ := foldl_preserveRoute_frame metric r.routes
        { d with addresses := d.addresses ++ r.addresses }
      refine ⟨defaultRoute, routes, ?_, given, fun off => ?_⟩
      · simpa [withRestart, Restart.preserve, restartAddresses] using run
      · obtain off | off := off <;> contradiction

/-! ## The whole -/

section Joined

variable (i : Interface) (address : AddressConfig) (routers : Routers)

theorem joined_mtu : (i.joined address routers).mtu = mtuOf address i.lease routers.mtu := by
  obtain ⟨_, _, restarted, -⟩ := withRestart_frame i.restart address.routeOffered i.metric _
  rw [joined, restarted]
  simp only [withLinkLocal_eq, withLease_eq, withStatics_eq]

theorem joined_addresses :
    (i.joined address routers).addresses =
      statics4 address.statics ++ leaseAddresses i.lease ++
        linkLocalAddresses i.linkLocal (i.lease.isNone && address.statics.isEmpty) ++
        restartAddresses i.restart := by
  obtain ⟨_, _, restarted, -⟩ := withRestart_frame i.restart address.routeOffered i.metric _
  rw [joined, restarted]
  simp only [withLinkLocal_eq, withLease_eq, withStatics_eq, List.nil_append]

theorem joined_addresses6 :
    (i.joined address routers).addresses6 = statics6 address.statics ++ routers.addresses.map slaacAddress := by
  obtain ⟨_, _, restarted, -⟩ := withRestart_frame i.restart address.routeOffered i.metric _
  rw [joined, restarted]
  simp only [withLinkLocal_eq, withLease_eq, withStatics_eq, List.nil_append]

theorem joined_defaultRoute6 :
    (i.joined address routers).defaultRoute6 =
      (gateway6Of address routers.router).map fun g => (g, i.metric) := rfl

/-- An IPv4 gateway that is known is the one used. -/
theorem joined_defaultRoute_of_gateway {g : Ipv4Addr} (known : gatewayOf address i.lease = some g) :
    (i.joined address routers).defaultRoute = some (g, i.metric) := by
  obtain ⟨_, _, restarted, given, -⟩ := withRestart_frame i.restart address.routeOffered i.metric _
  rw [joined, restarted]
  exact (given (by rw [known]; rfl)).trans (by rw [known]; rfl)

/-- Without kept routes, the IPv4 routes are the lease's. -/
theorem joined_routes (off : address.routeOffered = false ∨ i.restart = none) :
    (i.joined address routers).defaultRoute = (gatewayOf address i.lease).map (fun g => (g, i.metric)) ∧
      (i.joined address routers).routes = leaseRoutes i.lease address.routeOffered i.metric := by
  obtain ⟨_, _, restarted, -, alone⟩ := withRestart_frame i.restart address.routeOffered i.metric _
  obtain ⟨defaultRoute, routes⟩ := alone off
  rw [joined, restarted]
  refine ⟨defaultRoute, routes.trans ?_⟩
  simp only [withLinkLocal_eq, withLease_eq, withStatics_eq, List.nil_append]

end Joined

theorem desired_join {i : Interface} {p : Profile} (joins : i.outcome = .join p) (now : ℕ) :
    i.desired now = if i.link.loopback then none else some (i.joined p.address (i.routers now)) := by
  rw [desired, joins]

/-! ## Offers that are not taken -/

/-- Two interfaces that agree in everything but what the network said. -/
def Alike (i j : Interface) : Prop :=
  j = { i with
    lease := j.lease
    restart := j.restart
    ndp := j.ndp
    dhcp6 := j.dhcp6 }

namespace Alike

variable {i j : Interface} {p : Profile}

theorem link (alike : Alike i j) : j.link = i.link := by rw [alike]

theorem outcome (alike : Alike i j) : j.outcome = i.outcome := by rw [alike]

theorem profile (alike : Alike i j) : j.profile = i.profile := by
  rw [Interface.profile, Interface.profile, alike.link, alike.outcome]

theorem metric (alike : Alike i j) : j.metric = i.metric := by
  rw [Interface.metric, Interface.metric, alike.profile, alike.link]

/-- What the assembled states share, the desired states share. -/
theorem desired_map {α : Type*} (alike : Alike i j) (joins : i.outcome = .join p) (now later : ℕ)
    (field : Desired → α)
    (same : field (i.joined p.address (i.routers now)) = field (j.joined p.address (j.routers later))) :
    (i.desired now).map field = (j.desired later).map field := by
  rw [desired_join joins, desired_join (alike.outcome.trans joins), alike.link]
  split_ifs
  · rfl
  · exact congrArg some same

theorem gatewayOf_eq {address : AddressConfig} (off : address.routeOffered = false)
    (lease : Option Dhcp4.Lease) : gatewayOf address lease = address.gateway := by
  rw [gatewayOf, off]
  exact Option.or_none

theorem gateway6Of_eq {address : AddressConfig} (off : address.routeOffered = false)
    (router : Option Ipv6Addr) : gateway6Of address router = address.gateway6 := by
  rw [gateway6Of, off]
  exact Option.or_none

theorem mtuOf_eq {address : AddressConfig} (off : address.mtuOffered = false)
    (lease : Option Dhcp4.Lease) (offered : Option U32) : mtuOf address lease offered = address.mtu := by
  rw [mtuOf, off]
  exact Option.or_none

theorem routes_eq (alike : Alike i j) (joins : i.outcome = .join p)
    (off : p.address.routeOffered = false) (now later : ℕ) :
    (i.desired now).map Desired.defaultRoute = (j.desired later).map Desired.defaultRoute ∧
      (i.desired now).map Desired.defaultRoute6 = (j.desired later).map Desired.defaultRoute6 ∧
      (i.desired now).map Desired.routes = (j.desired later).map Desired.routes := by
  obtain ⟨first, routes⟩ := joined_routes i p.address (i.routers now) (.inl off)
  obtain ⟨second, others⟩ := joined_routes j p.address (j.routers later) (.inl off)
  refine ⟨alike.desired_map joins now later _ ?_, alike.desired_map joins now later _ ?_,
    alike.desired_map joins now later _ ?_⟩
  · rw [first, second, gatewayOf_eq off, gatewayOf_eq off, alike.metric]
  · rw [joined_defaultRoute6, joined_defaultRoute6, gateway6Of_eq off, gateway6Of_eq off, alike.metric]
  · rw [routes, others, off]
    rfl

theorem mtu_eq (alike : Alike i j) (joins : i.outcome = .join p)
    (off : p.address.mtuOffered = false) (now later : ℕ) :
    (i.desired now).map Desired.mtu = (j.desired later).map Desired.mtu := by
  apply alike.desired_map joins now later
  rw [joined_mtu, joined_mtu, mtuOf_eq off, mtuOf_eq off]

/-- Without offers, an interface answers with what its profile says. -/
theorem dns_of_not_offered (joins : i.outcome = .join p) (off : p.dns.offered = false) (now : ℕ) :
    (i.dns now).servers = (if i.link.loopback then [] else p.dns.servers.eraseDups) ∧
      (i.dns now).search = if i.link.loopback then [] else p.dns.domains.eraseDups := by
  rw [Interface.dns, Interface.profile, joins]
  cases i.link.loopback with
  | true => exact ⟨rfl, rfl⟩
  | false => simp [Outcome.profile, off]

theorem dns_eq (alike : Alike i j) (joins : i.outcome = .join p) (off : p.dns.offered = false)
    (now later : ℕ) :
    (i.dns now).servers = (j.dns later).servers ∧ (i.dns now).search = (j.dns later).search := by
  obtain ⟨servers, search⟩ := dns_of_not_offered joins off now
  obtain ⟨others, more⟩ := dns_of_not_offered (alike.outcome.trans joins) off later
  rw [servers, search, others, more, alike.link]
  exact ⟨rfl, rfl⟩

end Alike

/-- What the profile says itself is what is wanted, whatever the network says. -/
theorem explicit_desired {i : Interface} {p : Profile} (joins : i.outcome = .join p) {now : ℕ} {d : Desired}
    (wanted : i.desired now = some d) :
    (∀ g ∈ p.address.gateway, d.defaultRoute = some (g, i.metric)) ∧
      (∀ g ∈ p.address.gateway6, d.defaultRoute6 = some (g, i.metric)) ∧
      ∀ m ∈ p.address.mtu, d.mtu = some m := by
  rw [desired_join joins] at wanted
  split_ifs at wanted
  obtain ⟨⟩ := wanted
  refine ⟨fun g given => ?_, fun g given => ?_, fun m given => ?_⟩
  · apply joined_defaultRoute_of_gateway
    rw [gatewayOf, given]
    rfl
  · rw [joined_defaultRoute6, gateway6Of, given]
    rfl
  · rw [joined_mtu, mtuOf, given]
    rfl

/-- An offer that the profile does not take shows nowhere, and one that it takes never in place of
what the profile says itself. -/
theorem offers_not_taken {i j : Interface} {p : Profile} (alike : Alike i j) (joins : i.outcome = .join p)
    (now : ℕ) :
    (p.address.routeOffered = false →
        (i.desired now).map Desired.defaultRoute = (j.desired now).map Desired.defaultRoute ∧
          (i.desired now).map Desired.defaultRoute6 = (j.desired now).map Desired.defaultRoute6 ∧
          (i.desired now).map Desired.routes = (j.desired now).map Desired.routes) ∧
      (p.address.mtuOffered = false →
        (i.desired now).map Desired.mtu = (j.desired now).map Desired.mtu) ∧
      (p.dns.offered = false →
        (i.dns now).servers = (j.dns now).servers ∧ (i.dns now).search = (j.dns now).search) ∧
      ∀ d ∈ i.desired now,
        (∀ g ∈ p.address.gateway, d.defaultRoute = some (g, i.metric)) ∧
          (∀ g ∈ p.address.gateway6, d.defaultRoute6 = some (g, i.metric)) ∧
          ∀ m ∈ p.address.mtu, d.mtu = some m :=
  ⟨fun off => alike.routes_eq joins off now now, fun off => alike.mtu_eq joins off now now,
    fun off => alike.dns_eq joins off now now, fun _ wanted => explicit_desired joins wanted⟩

/-- A profile that names its own gateway and takes no offer. -/
def guarded : Profile where
  path := "guarded"
  enabled := true
  address := { offered := true, gateway := some 0x0a000001#32 }
  dns := {}

/-- An interface that joins it. -/
def guardedInterface : Interface :=
  { Interface.new "eth0" ⟨2, "eth0", none, true, true, false, 1500, 1, .ether⟩ with
    outcome := .join guarded }

/-- A lease that offers a way out, a route and a server. -/
def offeringLease : Dhcp4.Lease where
  address := 0x0a000042#32
  prefixLength := 24
  server := 0x0a0000fe#32
  routers := [0x0a0000fe#32]
  dns := [0x0a0000fe#32]
  domain := none
  search := []
  hostname := none
  mtu := some 1280
  broadcast := none
  ntp := []
  staticRoutes := [⟨0xac100000#32, 16, 0x0a0000fe#32⟩]
  leaseTime := 3600
  t1 := 1800
  t2 := 3150

theorem guarded_routes_stay :
    ({ guardedInterface with lease := some offeringLease }).desired 0 ≠ guardedInterface.desired 0 ∧
      (guardedInterface.desired 0).map Desired.routes =
        (({ guardedInterface with lease := some offeringLease }).desired 0).map Desired.routes ∧
      ∀ d ∈ guardedInterface.desired 0, d.defaultRoute = some (0x0a000001#32, 100#32) := by
  obtain ⟨routes, -, -, explicit⟩ := offers_not_taken (i := guardedInterface)
    (j := { guardedInterface with lease := some offeringLease }) (p := guarded) rfl rfl 0
  refine ⟨by decide +kernel, (routes rfl).2.2, fun d wanted => ?_⟩
  exact (explicit d wanted).1 _ rfl

end Interface

end Netd.Model
