import Netd.Proofs.Interface.Offers
import Netd.Proofs.Profile.Inheritance

/-! # Address families a profile leaves out

`Address.Families` says which families a profile deals in. Statics of another family are dropped when
the profile is read and clients of another family are never started, but a gateway is kept as it is
written, and with it a default route.
-/

namespace Netd.Model

open Reconcile (Desired DesiredV6)

/-! ## What is read -/

/-- A profile whose settings were read from some values. -/
def Profile.Parsed (p : Profile) : Prop := ∃ path values, parse path values = .ok (p.address, p.dns)

/-- Every resolved profile was read from values. -/
theorem resolve_parsed {root : RawKey} {profiles : Profiles} (resolved : resolve root = .ok profiles)
    {path : String} {p : Profile} (known : profiles.lookup path = some p) : p.Parsed := by
  have all := @resolve_all (fun _ p => p.Parsed) (fun path _ values _ read => ⟨path, values, read⟩) root profiles
  exact all resolved path p known

/-- Statics are of families the profile deals in. -/
theorem Profile.Parsed.statics {p : Profile} (parsed : p.Parsed) :
    ∀ s ∈ p.address.statics,
      (∀ a, s.address = .v4 a → p.address.ipv4 = true) ∧ ∀ a, s.address = .v6 a → p.address.ipv6 = true := by
  obtain ⟨path, values, read⟩ := parsed
  obtain ⟨⟨a, d⟩, -, retained⟩ := Fallible.bind_eq_ok.mp read
  obtain ⟨address, -⟩ := Prod.ext_iff.mp (Except.ok.inj retained)
  change retainStatics a = p.address at address
  rw [← address]
  intro s member
  have kept := (List.mem_filter.mp member).2
  refine ⟨fun ip family => ?_, fun ip family => ?_⟩
  · simpa only [family, retainStatics] using kept
  · simpa only [family, retainStatics] using kept

namespace Interface

theorem statics6_eq_nil {p : Profile} (parsed : p.Parsed) (off : p.address.ipv6 = false) :
    statics6 p.address.statics = [] := by
  rw [statics6, List.filterMap_eq_nil_iff]
  intro s member
  cases family : s.address with
  | v4 a => rfl
  | v6 a =>
    have on := (parsed.statics s member).2 a family
    rw [off] at on
    contradiction

theorem statics4_eq_nil {p : Profile} (parsed : p.Parsed) (off : p.address.ipv4 = false) :
    statics4 p.address.statics = [] := by
  rw [statics4, List.filterMap_eq_nil_iff]
  intro s member
  cases family : s.address with
  | v4 a =>
    have on := (parsed.statics s member).1 a family
    rw [off] at on
    contradiction
  | v6 a => rfl

/-! ## What is wanted -/

theorem desired_of_profile {i : Interface} {p : Profile} (joined : i.profile = some p) (now : ℕ) :
    i.desired now = some (i.joined p.address (i.routers now)) := by
  rw [Interface.profile] at joined
  split_ifs at joined with loopback
  cases outcome : i.outcome with
  | join q =>
    rw [outcome] at joined
    obtain rfl := Option.some.inj joined
    rw [desired_join outcome, if_neg loopback]
  | ignore =>
    rw [outcome] at joined
    contradiction
  | down =>
    rw [outcome] at joined
    contradiction

/-- Without routers, IPv6 comes from the profile alone. -/
theorem joined_without_routers {i : Interface} {p : Profile} (parsed : p.Parsed) (off : p.address.ipv6 = false)
    (now : ℕ) (ndp : i.ndp = none) :
    (i.joined p.address (i.routers now)).addresses6 = [] ∧
      (i.joined p.address (i.routers now)).defaultRoute6 = p.address.gateway6.map fun g => (g, i.metric) := by
  have silent : i.routers now = ⟨none, [], none⟩ := by rw [routers, ndp]; rfl
  rw [joined_addresses6, joined_defaultRoute6, statics6_eq_nil parsed off, silent]
  refine ⟨rfl, ?_⟩
  rw [gateway6Of]
  cases p.address.gateway6 <;> simp

/-- Without a client and what a client leaves, IPv4 comes from the profile alone. -/
theorem joined_without_client {i : Interface} {p : Profile} (parsed : p.Parsed) (off : p.address.ipv4 = false)
    (routers : Routers) (lease : i.lease = none) (linkLocal : i.linkLocal = none) (restart : i.restart = none) :
    (i.joined p.address routers).addresses = [] ∧ (i.joined p.address routers).routes = [] ∧
      (i.joined p.address routers).defaultRoute = p.address.gateway.map fun g => (g, i.metric) := by
  obtain ⟨defaultRoute, routes⟩ := joined_routes i p.address routers (.inr restart)
  refine ⟨?_, ?_, ?_⟩
  · rw [joined_addresses, statics4_eq_nil parsed off, lease, linkLocal, restart]
    simp [leaseAddresses, linkLocalAddresses, restartAddresses]
  · rw [routes, lease]
    simp [leaseRoutes]
  · rw [defaultRoute, gatewayOf, lease]
    cases p.address.gateway <;> simp

/-- A profile gates a family it leaves out, on interfaces where no client speaks for that family,
exactly where it names no gateway of it. -/
theorem families_gated_iff {root : RawKey} {profiles : Profiles} (resolved : resolve root = .ok profiles)
    {path : String} {p : Profile} (known : profiles.lookup path = some p) {i : Interface}
    (joined : i.profile = some p) (held : i.restart.isSome = true → i.dhcp.isSome = true) (now : ℕ) :
    (p.address.ipv6 = false → i.ndp = none → i.dhcp6 = none →
        ((∀ d ∈ i.desired now, d.addresses6 = [] ∧ d.defaultRoute6 = none) ↔ p.address.gateway6 = none)) ∧
      (p.address.ipv4 = false → i.dhcp = none → i.lease = none → i.linkLocal = none →
        ((∀ d ∈ i.desired now, d.addresses = [] ∧ d.routes = [] ∧ d.defaultRoute = none) ↔
          p.address.gateway = none)) := by
  have parsed := resolve_parsed resolved known
  rw [desired_of_profile joined]
  refine ⟨fun off ndp _ => ?_, fun off dhcp lease linkLocal => ?_⟩
  · obtain ⟨addresses, route⟩ := joined_without_routers parsed off now ndp
    simp [addresses, route]
  · have restart : i.restart = none := by
      by_contra kept
      have client := held (Option.isSome_iff_ne_none.mpr kept)
      rw [dhcp] at client
      contradiction
    obtain ⟨addresses, routes, route⟩ :=
      joined_without_client parsed off (i.routers now) lease linkLocal restart
    simp [addresses, routes, route]

/-- A tree of one profile. -/
def site (values : List (String × RawValue)) : RawKey where
  name := "Profiles"
  values := []
  children := [⟨"site", values, []⟩]

/-- What the profile reads as, when its values are about addresses. -/
def siteProfile (address : AddressConfig) : Profile where
  path := "site"
  enabled := true
  address
  dns := {}

/-- An interface that joins a profile and has no clients. -/
def joinedTo (p : Profile) : Interface :=
  { Interface.new "eth0" ⟨2, "eth0", none, true, true, false, 1500, 1, .ether⟩ with outcome := .join p }

theorem resolve_site {values : List (String × RawValue)} {p : Profile}
    (read : ((resolve (site values)).toOption.bind fun profiles => profiles.lookup "site") = some p) :
    ∃ profiles, resolve (site values) = .ok profiles ∧ profiles.lookup "site" = some p := by
  obtain ⟨profiles, resolved, known⟩ := Option.bind_eq_some_iff.mp read
  cases result : resolve (site values) with
  | error e =>
    rw [result] at resolved
    contradiction
  | ok others =>
    rw [result] at resolved
    obtain rfl := Option.some.inj resolved
    exact ⟨_, rfl, known⟩

/-- Statics are gated. -/
theorem v4_statics_gated :
    ∃ profiles, resolve (site [("Address.Families", .str "ipv4"), ("Address.Static", .str "fd00::5/64")]) =
        .ok profiles ∧
      profiles.lookup "site" = some (siteProfile { ipv6 := false }) ∧
      ∀ d ∈ (joinedTo (siteProfile { ipv6 := false })).desired 0, d.addresses6 = [] ∧ d.defaultRoute6 = none := by
  obtain ⟨profiles, resolved, known⟩ :=
    @resolve_site [("Address.Families", .str "ipv4"), ("Address.Static", .str "fd00::5/64")]
      (siteProfile { ipv6 := false }) (by decide +kernel)
  refine ⟨profiles, resolved, known, ?_⟩
  obtain ⟨ipv6, -⟩ := families_gated_iff (i := joinedTo (siteProfile { ipv6 := false })) resolved known rfl
    (fun kept => nomatch kept) 0
  exact (ipv6 rfl rfl rfl).mpr rfl

/-- A profile that deals in IPv4 only and names an IPv6 gateway. -/
def strayGateway : Profile := siteProfile { ipv6 := false, gateway6 := some 0xfd000000000000000000000000000001#128 }

/-- A gateway is not gated: the interface gets an IPv6 default route. -/
theorem v4_gateway_not_gated :
    ∃ profiles, resolve (site [("Address.Families", .str "ipv4"), ("Route.Gateway", .str "fd00::1")]) =
        .ok profiles ∧
      profiles.lookup "site" = some strayGateway ∧ strayGateway.address.ipv6 = false ∧
      (joinedTo strayGateway).ndp = none ∧ (joinedTo strayGateway).dhcp6 = none ∧
      ¬∀ d ∈ (joinedTo strayGateway).desired 0, d.addresses6 = [] ∧ d.defaultRoute6 = none := by
  obtain ⟨profiles, resolved, known⟩ :=
    @resolve_site [("Address.Families", .str "ipv4"), ("Route.Gateway", .str "fd00::1")] strayGateway
      (by decide +kernel)
  refine ⟨profiles, resolved, known, rfl, rfl, rfl, fun gated => ?_⟩
  have none := (gated _ rfl).2
  contradiction

end Interface

end Netd.Model
