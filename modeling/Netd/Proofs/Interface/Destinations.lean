import Netd.Proofs.Dhcp4.Routes
import Netd.Proofs.Interface.Offers
import Netd.Proofs.Reconcile.Execution

/-! # Destinations of a lease's routes

A destination is widened to an address by whole octets, so it is a network of its width exactly if its last
octet has no bits behind the width. Such bits reach the kernel: `subnet_of` masks the lease's address, but
nothing on the way from option 121 to `AddRoute` masks a destination.
-/

namespace Netd.Model.Dhcp4

/-- An address whose bits behind a prefix are zero. -/
def Network (address : Ipv4Addr) (length : U8) : Prop := address &&& leadingOnes length.toNat = address

theorem network_iff {address : Ipv4Addr} {length : U8} :
    Network address length ↔ ∀ i < 32 - length.toNat, address.getLsbD i = false := by
  constructor
  · intro network i behind
    rw [Network] at network
    rw [← network, leadingOnes, BitVec.getLsbD_and, BitVec.getLsbD_shiftLeft, decide_eq_true behind, Bool.not_true,
      Bool.and_false, Bool.false_and, Bool.and_false]
  · intro clear
    apply BitVec.eq_of_getLsbD_eq
    intro i inside
    rw [leadingOnes, BitVec.getLsbD_and, BitVec.getLsbD_shiftLeft, BitVec.getLsbD_allOnes]
    by_cases behind : i < 32 - length.toNat
    · rw [clear i behind, Bool.false_and]
    · have within : i - (32 - length.toNat) < 32 := by omega
      rw [decide_eq_false behind, decide_eq_true inside, decide_eq_true within]
      exact Bool.and_true _

namespace Entry

/-- No bits of the last octet are behind the width. -/
def Clear (entry : Entry) : Prop :=
  ∀ last ∈ entry.destination.getLast?, ∀ bit < 8 * entry.destination.length - entry.width.toNat,
    last.getLsbD bit = false

/-- The octets of a destination, from the last one on. -/
theorem getLsbD_destination (entry : Entry) {i : ℕ} (inside : i < 32) :
    entry.route.destination.getLsbD i =
      if i / 8 < 4 - entry.destination.length then false
      else (entry.destination.reverse.getD (i / 8 - (4 - entry.destination.length)) 0).getLsbD (i % 8) := by
  rw [route, getLsbD_fromBeBytes, decide_eq_true inside, Bool.true_and, List.reverse_append, List.reverse_replicate]
  split
  · next high =>
    rw [List.getD_append _ _ _ _ (by rwa [List.length_replicate]), List.getD_replicate _ high]
    exact BitVec.getLsbD_zero
  · next low =>
    rw [List.getD_append_right _ _ _ _ (by rw [List.length_replicate]; omega), List.length_replicate]

theorem network_iff_clear (entry : Entry) : Network entry.route.destination entry.width ↔ entry.Clear := by
  have narrow := entry.narrow
  have significant := entry.significant
  rw [network_iff]
  constructor
  · intro network last final bit behind
    -- The bit of the last octet, as a bit of the address.
    have place := network (8 * (4 - entry.destination.length) + bit) (by omega)
    have octet : (8 * (4 - entry.destination.length) + bit) / 8 = 4 - entry.destination.length := by omega
    have offset : (8 * (4 - entry.destination.length) + bit) % 8 = bit := by omega
    rw [getLsbD_destination entry (by omega), octet, offset, if_neg (Nat.lt_irrefl _), Nat.sub_self,
      List.getD_eq_getElem?_getD, ← List.head?_eq_getElem?, List.head?_reverse, Option.mem_def.mp final] at place
    exact place
  · intro clear i behind
    rw [getLsbD_destination entry (by omega)]
    split
    · rfl
    · next low =>
      have octet : i / 8 - (4 - entry.destination.length) = 0 := by omega
      have nonempty : entry.destination ≠ [] := by
        intro none
        rw [none, List.length_nil] at low significant
        omega
      rw [octet, List.getD_eq_getElem?_getD, ← List.head?_eq_getElem?, List.head?_reverse,
        List.getLast?_eq_some_getLast nonempty, Option.getD_some]
      exact clear _ (List.getLast?_eq_some_getLast nonempty) (i % 8) (by omega)

end Entry

/-- Every entry of an option is clear behind its width. -/
def ClearOption (octets : Bytes) : Prop :=
  ∀ entries : List Entry, octets = entries.flatMap Entry.octets → ∀ entry ∈ entries, entry.Clear

theorem networks_iff_clear {octets : Bytes} :
    (∀ routes, decodeClasslessRoutes octets = some routes →
      ∀ route ∈ routes, Network route.destination route.prefixLength) ↔ ClearOption octets := by
  constructor
  · intro networks entries spelled entry member
    have read := decodeClasslessRoutes_eq_some_iff.mpr ⟨entries, spelled, rfl⟩
    exact entry.network_iff_clear.mp (networks _ read _ (List.mem_map_of_mem member))
  · intro clear routes read route member
    obtain ⟨entries, spelled, rfl⟩ := decodeClasslessRoutes_eq_some_iff.mp read
    obtain ⟨entry, listed, rfl⟩ := List.mem_map.mp member
    exact entry.network_iff_clear.mpr (clear entries spelled entry listed)

end Netd.Model.Dhcp4

namespace Netd.Model.Interface

open Reconcile (Desired planRoutes)

/-- A destination that the kernel had before a restart, and that is kept. -/
def KeptRoute (i : Interface) (destination : IpAddr) (length : U8) : Prop :=
  ∃ restart ∈ i.restart, ∃ kept ∈ restart.routes, kept.destination = destination ∧ kept.prefixLength = length

theorem foldl_preserveRoute_mem {metric : U32} {routes : List Route} {d : Desired}
    {entry : Ipv4Addr × U8 × Ipv4Addr × U32} (member : entry ∈ (routes.foldl (Restart.preserveRoute metric) d).routes) :
    entry ∈ d.routes ∨ ∃ kept ∈ routes, kept.destination = .v4 entry.1 ∧ kept.prefixLength = entry.2.1 := by
  induction routes generalizing d with
  | nil => exact .inl member
  | cons route rest ih =>
    obtain before | ⟨kept, later, same⟩ := ih member
    · rw [Restart.preserveRoute] at before
      split at before
      · next destination gateway there _ =>
        split at before
        · exact .inl before
        · obtain before | new := List.mem_append.mp before
          · exact .inl before
          · obtain rfl := List.mem_singleton.mp new
            exact .inr ⟨route, List.mem_cons_self, there, rfl⟩
      · exact .inl before
    · exact .inr ⟨kept, List.mem_cons_of_mem route later, same⟩

/-- The routes of a desired state are the lease's, and those kept. -/
theorem desired_routes {i : Interface} {now : ℕ} {d : Desired} (wanted : i.desired now = some d)
    {entry : Ipv4Addr × U8 × Ipv4Addr × U32} (member : entry ∈ d.routes) :
    (∃ lease route, i.lease = some lease ∧ route ∈ lease.staticRoutes ∧
      entry = (route.destination, route.prefixLength, route.gateway, i.metric)) ∨
      i.KeptRoute (.v4 entry.1) entry.2.1 := by
  rw [desired] at wanted
  split at wanted
  · contradiction
  split at wanted
  · contradiction
  · obtain rfl := Option.some.inj wanted
    contradiction
  next profile _ =>
  obtain rfl := Option.some.inj wanted
  have given : entry ∈ leaseRoutes i.lease profile.address.routeOffered i.metric ∨
      i.KeptRoute (.v4 entry.1) entry.2.1 := by
    by_cases off : profile.address.routeOffered = false ∨ i.restart = none
    · rw [(joined_routes _ _ _ off).2] at member
      exact .inl member
    · obtain ⟨offered, restarted⟩ := not_or.mp off
      obtain ⟨restart, there⟩ := Option.ne_none_iff_exists'.mp restarted
      rw [Bool.not_eq_false] at offered
      rw [joined, there, withRestart, offered] at member
      obtain before | kept := foldl_preserveRoute_mem member
      · left
        simp only [withLinkLocal_eq, withLease_eq, withStatics_eq, List.nil_append] at before
        rw [offered]
        exact before
      · exact .inr ⟨restart, there, kept⟩
  apply given.imp_left
  intro given
  rw [leaseRoutes] at given
  split at given
  · obtain ⟨lease, held, given⟩ := List.mem_flatMap.mp given
    obtain ⟨route, kept, rfl⟩ := List.mem_map.mp given
    exact ⟨lease, route, Option.mem_toList.mp held, List.mem_of_mem_filter kept, rfl⟩
  · contradiction

/-- A planned route that is no default route and was not kept goes where a route of the lease goes. -/
theorem planned_destination {i : Interface} {observed : Observed} {now : ℕ} {d : Desired} {route : Route}
    (wanted : i.desired now = some d) (planned : .addRoute route ∈ planRoutes observed d)
    (further : route.prefixLength ≠ 0) (new : ¬i.KeptRoute route.destination route.prefixLength) :
    ∃ lease static, i.lease = some lease ∧ static ∈ lease.staticRoutes ∧
      route.destination = .v4 static.destination ∧ route.prefixLength = static.prefixLength := by
  obtain ⟨_, _, other⟩ | ⟨added, comes, same⟩ := Reconcile.mem_planRoutes.mp planned
  · contradiction
  obtain rfl := Reconcile.Op.addRoute.inj same
  obtain four | six := Reconcile.mem_wantRoutes.mp (KeyedTable.mem_missing.mp comes).1
  · rw [Reconcile.wantRoutes4, List.mem_append, List.mem_map, Option.mem_toList, Option.map_eq_some_iff] at four
    obtain ⟨entry, member, rfl⟩ | ⟨_, _, rfl⟩ := four
    · obtain ⟨lease, static, held, listed, rfl⟩ | kept := desired_routes wanted member
      · exact ⟨lease, static, held, listed, rfl, rfl⟩
      · exact absurd kept new
    · exact absurd rfl further
  · obtain ⟨_, _, _, rfl⟩ := Reconcile.mem_wantDefault6 six
    exact absurd rfl further

/-- A profile that takes the routes it is offered. -/
def trusting : Profile where
  path := "trusting"
  enabled := true
  address := { offered := true, routeOffered := true }
  dns := {}

/-- An interface that joins it and holds a lease. -/
def leased (lease : Dhcp4.Lease) : Interface :=
  { Interface.new "eth0" ⟨2, "eth0", none, true, true, false, 1500, 1, .ether⟩ with
    outcome := .join trusting
    lease := some lease }

/-- A kernel without routes. -/
def bare : Observed := ⟨.empty, [], []⟩

/-- What the lease has is asked of the kernel as it is. -/
theorem lease_route_planned {lease : Dhcp4.Lease} {static : Dhcp4.StaticRoute} (listed : static ∈ lease.staticRoutes)
    (further : 0 < static.prefixLength) :
    ∃ d, (leased lease).desired 0 = some d ∧
      .addRoute (Reconcile.netdRoute 2 (.v4 static.destination) static.prefixLength (.v4 static.gateway) 100) ∈
        planRoutes bare d := by
  refine ⟨_, rfl, Reconcile.mem_planRoutes.mpr (.inr ⟨_, KeyedTable.mem_missing.mpr ⟨?_, ?_⟩, rfl⟩)⟩
  · apply Reconcile.mem_wantRoutes.mpr
    apply Or.inl
    apply List.mem_append_left
    apply List.mem_map.mpr
    refine ⟨(static.destination, static.prefixLength, static.gateway, 100), ?_, rfl⟩
    rw [(joined_routes _ _ _ (.inr rfl)).2]
    change _ ∈ leaseRoutes (some lease) true 100
    rw [leaseRoutes, if_pos rfl, Option.toList_some, List.flatMap_singleton]
    exact List.mem_map.mpr ⟨static, List.mem_filter.mpr ⟨listed, decide_eq_true further⟩, rfl⟩
  · exact List.not_mem_nil

/-- Every route that is planned, but for default routes and those kept over a restart, goes to a network. -/
def PlansNetworks (octets : Bytes) : Prop :=
  ∀ (message : Dhcp4.Message) (lease : Dhcp4.Lease) (i : Interface) (observed : Observed) (now : ℕ) (d : Desired)
    (route : Route), message.options.get Dhcp4.option.classlessStaticRoute = some octets →
    Dhcp4.Lease.fromAck message = some lease → i.lease = some lease → i.desired now = some d →
    .addRoute route ∈ planRoutes observed d → route.prefixLength ≠ 0 →
    ¬i.KeptRoute route.destination route.prefixLength →
    ∃ destination, route.destination = .v4 destination ∧ Dhcp4.Network destination route.prefixLength

theorem plansNetworks_of_clear {octets : Bytes} (clear : Dhcp4.ClearOption octets) : PlansNetworks octets := by
  intro message lease i observed now d route present accepted held wanted planned further new
  obtain ⟨other, static, holds, listed, destination, length⟩ := planned_destination wanted planned further new
  obtain rfl := Option.some.inj (holds.symm.trans held)
  have routes := (Dhcp4.Lease.fromAck_read accepted).staticRoutes
  rw [present, Option.bind_some] at routes
  refine ⟨static.destination, destination, ?_⟩
  rw [length]
  cases read : Dhcp4.decodeClasslessRoutes octets with
  | none =>
    rw [routes, read] at listed
    contradiction
  | some decoded =>
    rw [routes, read] at listed
    exact Dhcp4.networks_iff_clear.mpr clear decoded read static listed

/-- An ACK that carries given routes. -/
def acked (octets : Bytes) : Dhcp4.Message :=
  { Dhcp4.Message.request 7 0x020000000001 with
    yiaddr := 0xc0a80142
    options :=
      [(Dhcp4.option.serverId, [192, 168, 0, 1]), (Dhcp4.option.leaseTime, [0, 0, 14, 16]),
        (Dhcp4.option.classlessStaticRoute, octets)] }

/-- Bits behind a width reach the kernel. -/
theorem clear_of_plansNetworks {octets : Bytes} (networks : PlansNetworks octets) : Dhcp4.ClearOption octets := by
  intro entries spelled entry member
  by_cases empty : entry.width.toNat = 0
  · -- A default route has no octets that could have bits.
    intro last final
    have none : entry.destination = [] := List.length_eq_zero_iff.mp (by rw [entry.significant, empty])
    rw [none] at final
    contradiction
  · have some_ : (Dhcp4.Lease.fromAck (acked octets)).isSome = true := rfl
    obtain ⟨lease, accepted⟩ := Option.isSome_iff_exists.mp some_
    have read := Dhcp4.decodeClasslessRoutes_eq_some_iff.mpr ⟨entries, spelled, rfl⟩
    have routes := (Dhcp4.Lease.fromAck_read accepted).staticRoutes
    have carried : (acked octets).options.get Dhcp4.option.classlessStaticRoute = some octets := rfl
    rw [carried, Option.bind_some, read, Option.getD_some] at routes
    have listed : entry.route ∈ lease.staticRoutes := by
      rw [routes]
      exact List.mem_map_of_mem member
    obtain ⟨d, wanted, planned⟩ := lease_route_planned listed (BitVec.lt_def.mpr (Nat.pos_of_ne_zero empty))
    have nonzero : entry.width ≠ 0 := fun zero => empty (by rw [zero]; rfl)
    have fresh : ¬(leased lease).KeptRoute (.v4 entry.route.destination) entry.width := by
      rintro ⟨restart, there, -⟩
      contradiction
    obtain ⟨destination, same, network⟩ :=
      networks (acked octets) lease (leased lease) bare 0 d _ carried accepted rfl wanted planned nonzero fresh
    obtain rfl := IpAddr.v4.inj same
    exact entry.network_iff_clear.mp network

/-- Routes are read as networks exactly if no entry has bits behind its width, and planned as networks exactly
then. -/
theorem routes_canonical_iff (octets : Bytes) :
    ((∀ routes, Dhcp4.decodeClasslessRoutes octets = some routes →
      ∀ route ∈ routes, Dhcp4.Network route.destination route.prefixLength) ↔ Dhcp4.ClearOption octets) ∧
      (PlansNetworks octets ↔ Dhcp4.ClearOption octets) :=
  ⟨Dhcp4.networks_iff_clear, clear_of_plansNetworks, plansNetworks_of_clear⟩

/-- Nine bits of 10.255.0.0 are 10.128.0.0, but the route is read and planned with all sixteen. -/
theorem wide_route_not_canonical :
    Dhcp4.decodeClasslessRoutes [9, 10, 255, 192, 168, 0, 1] = some [⟨0x0aff0000, 9, 0xc0a80001⟩] ∧
      ¬Dhcp4.Network 0x0aff0000 9 ∧ ¬PlansNetworks [9, 10, 255, 192, 168, 0, 1] := by
  let entry : Dhcp4.Entry := ⟨9, [10, 255], [192, 168, 0, 1], by decide, rfl, rfl⟩
  have outside : ¬Dhcp4.Network 0x0aff0000 9 := by
    unfold Dhcp4.Network
    decide
  refine ⟨Dhcp4.decodeClasslessRoutes_eq_some_iff.mpr ⟨[entry], rfl, rfl⟩, outside, ?_⟩
  intro networks
  have clear := clear_of_plansNetworks networks [entry] rfl entry (List.mem_singleton_self _)
  exact outside (entry.network_iff_clear.mpr clear)

end Netd.Model.Interface
