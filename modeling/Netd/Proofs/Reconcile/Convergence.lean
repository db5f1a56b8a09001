import Netd.Proofs.Reconcile.Execution

/-! # What a refused operation leaves to do

Applying a plan to tables that refuse part of it leaves a state whose next plan is the refused
part, in the same order. So a plan that was carried out is followed by an empty one, and one that
was not is retried without undoing what landed.
-/

namespace Netd.Model.Reconcile

open KeyedTable

/-- Kernel tables hold one entry for each key. -/
structure Keyed (o : Observed) : Prop where
  addresses : o.addresses.Pairwise fun first second => first.key ≠ second.key
  routes : o.routes.Nodup

/-- A desired state that asks for no IPv6 link-local and does not contradict itself about flags. -/
structure Consistent (d : Desired) : Prop where
  notLinkLocal : ∀ a ∈ d.addresses6, isV6LinkLocal a.address = false
  unambiguous : ∀ first ∈ d.addresses6, ∀ second ∈ d.addresses6,
    first.address = second.address → first.prefixLength = second.prefixLength → first = second

theorem ownsAddress_congr {index : U32} {first second : Address} (same : first.key = second.key) :
    ownsAddress index first = ownsAddress index second := by
  simp only [Address.key, Prod.mk.injEq] at same
  obtain ⟨sameIndex, sameAddress, -⟩ := same
  simp only [ownsAddress, Address.isLinkLocal6, sameIndex, sameAddress]

theorem Consistent.owned {d : Desired} (consistent : Consistent d) {a : Address}
    (member : a ∈ wantAddresses d) : ownsAddress d.index a = true := by
  rcases mem_wantAddresses.mp member with ⟨entry, _, rfl⟩ | ⟨entry, wanted, rfl⟩
  · simp [ownsAddress, Address.new, Address.isLinkLocal6]
  · simp [ownsAddress, DesiredV6.onLink, Address.isLinkLocal6, consistent.notLinkLocal entry wanted]

theorem Consistent.unique {d : Desired} (consistent : Consistent d) {first second : Address}
    (left : first ∈ wantAddresses d) (right : second ∈ wantAddresses d)
    (same : first.key = second.key) : first = second := by
  simp only [Address.key, Prod.mk.injEq] at same
  obtain ⟨-, address, length⟩ := same
  rcases mem_wantAddresses.mp left with ⟨one, _, rfl⟩ | ⟨one, wanted, rfl⟩ <;>
    rcases mem_wantAddresses.mp right with ⟨two, _, rfl⟩ | ⟨two, also, rfl⟩
  · rw [show one = two from Prod.ext (IpAddr.v4.inj address) length]
  · cases address
  · cases address
  · rw [consistent.unambiguous one wanted two also (IpAddr.v6.inj address) length]

theorem Consistent.reconcilable {d : Desired} (consistent : Consistent d) :
    Reconcilable Address.key (ownsAddress d.index) Address.settled (wantAddresses d) where
  keyNorm _ := rfl
  ownedKey _ _ := ownsAddress_congr
  wantOwned _ := consistent.owned
  wantNormal _ := wantAddresses_settled
  wantUnique _ left _ right := consistent.unique left right
  wantNodup := (List.collect_pairwise _).imp ne_of_lt

theorem wantRoutes_reconcilable (d : Desired) :
    Reconcilable id (ownsRoute d.index) id (wantRoutes d) where
  keyNorm _ := rfl
  ownedKey _ _ same := congrArg _ same
  wantOwned _ := wantRoutes_owned
  wantNormal _ _ := rfl
  wantUnique _ _ _ _ := id
  wantNodup := (List.collect_pairwise _).imp ne_of_lt

/-! ## The changes that were carried out -/

variable (ok : Op → Bool)

/-- Whether a change of the address table is carried out. -/
def addressOk (d : Desired) : Change Address → Bool
  | .put a => ok (.addAddress a d.broadcast)
  | .drop a => ok (.delAddress a)

/-- Whether a change of the route table is carried out. -/
def routeOk : Change Route → Bool
  | .put r => ok (.addRoute r)
  | .drop r => ok (.delRoute r)

theorem planAddresses_onAddresses (o : Observed) (d : Desired) :
    ((planAddresses o d).filter ok).filterMap Op.onAddresses =
      (diff Address.key (haveAddresses o d.index) (wantAddresses d)).filter (addressOk ok d) := by
  rw [planAddresses_eq, diff]
  simp only [List.filter_append, List.filter_map, List.filterMap_append, List.filterMap_map]
  exact congrArg₂ (· ++ ·) (congrFun List.filterMap_eq_map _) (congrFun List.filterMap_eq_map _)

theorem planRoutes_onRoutes (o : Observed) (d : Desired) :
    ((planRoutes o d).filter ok).filterMap Op.onRoutes =
      (diff id (haveRoutes o d.index) (wantRoutes d)).filter (routeOk ok) := by
  rw [planRoutes_eq, diff]
  simp only [List.filter_append, List.filter_map, List.filterMap_append, List.filterMap_map]
  exact congrArg₂ (· ++ ·) (congrFun List.filterMap_eq_map _) (congrFun List.filterMap_eq_map _)

theorem filterMap_filter_eq_nil {β : Type*} {ops : List Op} {table : Op → Option β}
    (elsewhere : ∀ op ∈ ops, table op = none) : (ops.filter ok).filterMap table = [] :=
  List.filterMap_eq_nil_iff.mpr fun op member => elsewhere op (List.mem_filter.mp member).1

/-- A table that link requests do not touch sees the address and route parts of a plan. -/
theorem plan_onTable {β : Type*} {o : Observed} {d : Desired} {link : Link} {table : Op → Option β}
    (found : o.links.lookup d.index = some link) (up : ∀ i, table (.linkUp i) = none)
    (mtu : ∀ i m, table (.mtu i m) = none) (down : ∀ i, table (.linkDown i) = none) :
    ((plan o d).filter ok).filterMap table =
      ((planAddresses o d).filter ok).filterMap table ++
        ((planRoutes o d).filter ok).filterMap table := by
  have first : ((planLinkUp link d).filter ok).filterMap table = [] :=
    filterMap_filter_eq_nil ok fun op member => mem_planLinkUp member ▸ up _
  have second : ((planMtu link d).filter ok).filterMap table = [] :=
    filterMap_filter_eq_nil ok fun op member => by
      obtain ⟨m, rfl⟩ := mem_planMtu member
      exact mtu _ m
  have last : ((planLinkDown link d).filter ok).filterMap table = [] :=
    filterMap_filter_eq_nil ok fun op member => mem_planLinkDown member ▸ down _
  rw [plan_of_link found]
  simp only [List.filter_append, List.filterMap_append, first, second, last, List.nil_append,
    List.append_nil]

theorem plan_onAddresses {o : Observed} {d : Desired} {link : Link}
    (found : o.links.lookup d.index = some link) :
    ((plan o d).filter ok).filterMap Op.onAddresses =
      (diff Address.key (haveAddresses o d.index) (wantAddresses d)).filter (addressOk ok d) := by
  have routes : ((planRoutes o d).filter ok).filterMap Op.onAddresses = [] :=
    filterMap_filter_eq_nil ok fun op member => by
      rcases mem_planRoutes.mp member with ⟨_, _, rfl⟩ | ⟨_, _, rfl⟩ <;> rfl
  rw [plan_onTable ok found (fun _ => rfl) (fun _ _ => rfl) (fun _ => rfl), routes,
    List.append_nil, planAddresses_onAddresses]

theorem plan_onRoutes {o : Observed} {d : Desired} {link : Link}
    (found : o.links.lookup d.index = some link) :
    ((plan o d).filter ok).filterMap Op.onRoutes =
      (diff id (haveRoutes o d.index) (wantRoutes d)).filter (routeOk ok) := by
  have addresses : ((planAddresses o d).filter ok).filterMap Op.onRoutes = [] :=
    filterMap_filter_eq_nil ok fun op member => by
      rcases mem_planAddresses.mp member with ⟨_, _, rfl⟩ | ⟨_, _, rfl⟩ <;> rfl
  rw [plan_onTable ok found (fun _ => rfl) (fun _ _ => rfl) (fun _ => rfl), addresses,
    List.nil_append, planRoutes_onRoutes]

/-! ## The link -/

/-- The link after the accepted part of a plan. -/
theorem plan_onLink {o : Observed} {d : Desired} {link : Link}
    (found : o.links.lookup d.index = some link) :
    ((plan o d).filter ok).foldl (Op.onLink d.index) link =
      ((planLinkUp link d ++ planMtu link d ++ planLinkDown link d).filter ok).foldl
        (Op.onLink d.index) link := by
  have addresses (link : Link) :
      ((planAddresses o d).filter ok).foldl (Op.onLink d.index) link = link :=
    foldl_onLink_inert fun op member _ => by
      rcases mem_planAddresses.mp (List.mem_filter.mp member).1 with ⟨_, _, rfl⟩ | ⟨_, _, rfl⟩ <;> rfl
  have routes (link : Link) : ((planRoutes o d).filter ok).foldl (Op.onLink d.index) link = link :=
    foldl_onLink_inert fun op member _ => by
      rcases mem_planRoutes.mp (List.mem_filter.mp member).1 with ⟨_, _, rfl⟩ | ⟨_, _, rfl⟩ <;> rfl
  rw [plan_of_link found]
  simp only [List.filter_append, List.foldl_append, addresses, routes]

/-- What the accepted link requests of a plan make of a link. -/
def carried (link : Link) (d : Desired) : Link :=
  ((planLinkUp link d ++ planMtu link d ++ planLinkDown link d).filter ok).foldl
    (Op.onLink d.index) link

theorem carried_mtu (link : Link) (d : Desired) :
    planMtu (carried ok link d) d = (planMtu link d).filter fun op => !ok op := by
  have up (start : Link) :
      (((planLinkUp link d).filter ok).foldl (Op.onLink d.index) start).mtu = start.mtu := by
    rw [planLinkUp]
    split_ifs
    · cases accepted : ok (.linkUp d.index) <;> simp [accepted, Op.onLink]
    · rfl
  have down (start : Link) :
      (((planLinkDown link d).filter ok).foldl (Op.onLink d.index) start).mtu = start.mtu := by
    rw [planLinkDown]
    split_ifs
    · cases accepted : ok (.linkDown d.index) <;> simp [accepted, Op.onLink]
    · rfl
  have after : (carried ok link d).mtu = (((planMtu link d).filter ok).foldl (Op.onLink d.index)
      (((planLinkUp link d).filter ok).foldl (Op.onLink d.index) link)).mtu := by
    simp only [carried, List.filter_append, List.foldl_append, down]
  rw [planMtu, after]
  cases wish : d.mtu with
  | none => simp only [planMtu, wish, List.filter_nil]
  | some mtu =>
    simp only [planMtu, wish]
    by_cases due : mtu ≠ link.mtu ∧ minMtu ≤ mtu
    · cases accepted : ok (.mtu d.index mtu) <;> simp [due, accepted, Op.onLink, up]
    · simp [due, up]

theorem carried_up (link : Link) (d : Desired) :
    (carried ok link d).up =
      (if d.up then link.up || ok (.linkUp d.index) else link.up && !ok (.linkDown d.index)) := by
  have mtu (start : Link) :
      (((planMtu link d).filter ok).foldl (Op.onLink d.index) start).up = start.up := by
    rw [planMtu]
    split
    · split_ifs
      · rename_i m _ _
        cases accepted : ok (.mtu d.index m) <;> simp [accepted, Op.onLink]
      · rfl
    · rfl
  simp only [carried, List.filter_append, List.foldl_append]
  cases wish : d.up with
  | true =>
    cases up : link.up <;> cases accepted : ok (.linkUp d.index) <;>
      simp [planLinkUp, planLinkDown, wish, up, accepted, Op.onLink, mtu]
  | false =>
    cases up : link.up <;> cases accepted : ok (.linkDown d.index) <;>
      simp [planLinkUp, planLinkDown, wish, up, accepted, Op.onLink, mtu]

theorem carried_linkUp (link : Link) (d : Desired) :
    planLinkUp (carried ok link d) d = (planLinkUp link d).filter fun op => !ok op := by
  rw [planLinkUp, planLinkUp, carried_up]
  cases d.up <;> cases link.up <;> cases accepted : ok (.linkUp d.index) <;> simp [accepted]

theorem carried_linkDown (link : Link) (d : Desired) :
    planLinkDown (carried ok link d) d = (planLinkDown link d).filter fun op => !ok op := by
  rw [planLinkDown, planLinkDown, carried_up]
  cases d.up <;> cases link.up <;> cases accepted : ok (.linkDown d.index) <;> simp [accepted]

/-! ## The next plan -/

theorem planAddresses_after {o after : Observed} {d : Desired} (keyed : Keyed o)
    (consistent : Consistent d)
    (table : after.addresses = run Address.key o.addresses
      ((diff Address.key (haveAddresses o d.index) (wantAddresses d)).filter (addressOk ok d))) :
    planAddresses after d = (planAddresses o d).filter fun op => !ok op := by
  have ready := consistent.reconcilable
  have unique : ∀ first ∈ o.addresses, ∀ second ∈ o.addresses,
      first.key = second.key → first = second := fun first left second right same =>
    List.inj_on_of_nodup_map (List.pairwise_map.mpr keyed.addresses) left right same
  rw [planAddresses_eq, planAddresses_eq, haveAddresses_eq after, table, haveAddresses_eq,
    ready.stale_run unique, ready.missing_run unique, List.filter_append, List.filter_map,
    List.filter_map]
  rfl

theorem planRoutes_after {o after : Observed} {d : Desired}
    (table : after.routes = run id o.routes
      ((diff id (haveRoutes o d.index) (wantRoutes d)).filter (routeOk ok))) :
    planRoutes after d = (planRoutes o d).filter fun op => !ok op := by
  have ready := wantRoutes_reconcilable d
  have unique : ∀ first ∈ o.routes, ∀ second ∈ o.routes, id first = id second → first = second :=
    fun _ _ _ _ => id
  rw [planRoutes_eq, planRoutes_eq, haveRoutes_eq after, table, haveRoutes_eq,
    ready.stale_run unique, ready.missing_run unique, List.filter_append, List.filter_map,
    List.filter_map]
  rfl

/-- The plan after the accepted part of a plan is the rest of it. -/
theorem plan_foldl_perform {o : Observed} {d : Desired} (keyed : Keyed o) (consistent : Consistent d) :
    plan (((plan o d).filter ok).foldl perform o) d = (plan o d).filter fun op => !ok op := by
  have links := foldl_perform_link o ((plan o d).filter ok) d.index
  cases found : o.links.lookup d.index with
  | none =>
    rw [found] at links
    rw [plan_of_no_link links, plan_of_no_link found, List.filter_nil]
  | some link =>
    rw [found, Option.map_some, plan_onLink ok found] at links
    have addresses := (foldl_perform_addresses o ((plan o d).filter ok)).trans
      (congrArg _ (plan_onAddresses ok found))
    have routes := (foldl_perform_routes o ((plan o d).filter ok)).trans
      (congrArg _ (plan_onRoutes ok found))
    rw [plan_of_link links, planAddresses_after ok keyed consistent addresses,
      planRoutes_after ok routes]
    change planLinkUp (carried ok link d) d ++ planMtu (carried ok link d) d ++ _ ++ _ ++
      planLinkDown (carried ok link d) d = _
    rw [carried_linkUp, carried_mtu, carried_linkDown, plan_of_link found]
    simp only [List.filter_append]

/-- Whichever operations the kernel refuses, the next plan is exactly these, in their order;
when it refuses none, nothing is left to do. -/
theorem next_plan_is_refused (o : Observed) (d : Desired) (keyed : Keyed o)
    (consistent : Consistent d) :
    (∀ refuse : Op → Option IoError,
      plan (apply (tables fun _ => refuse) o (plan o d)).1 d =
        (plan o d).filter fun op => (refuse op).isSome) ∧
      plan (apply (tables fun _ _ => none) o (plan o d)).1 d = [] := by
  have retried (refuse : Op → Option IoError) :
      plan (apply (tables fun _ => refuse) o (plan o d)).1 d =
        (plan o d).filter fun op => (refuse op).isSome := by
    rw [apply_refused, plan_foldl_perform _ keyed consistent]
    apply List.filter_congr
    intro op _
    cases refuse op <;> rfl
  refine ⟨retried, ?_⟩
  rw [retried fun _ => none]
  exact List.filter_false _

/-- A link that is down, with an address nobody asked for. -/
def strayed : Observed where
  links := SortedMap.empty.insert 2
    { index := 2
      name := "eth0"
      mac := none
      up := false
      carrier := false
      loopback := false
      mtu := 1500
      linkType := 1
      kind := .ether }
  addresses := [.new 2 (.v4 0xc0a80909) 24, .new 2 (.v6 0xfd000000000000000000000000001234) 64]
  routes := []

/-- The same link up, its IPv6 address deprecated, and both default routes. -/
def wished : Desired where
  index := 2
  up := true
  mtu := some 1400
  addresses6 := [⟨0xfd000000000000000000000000001234, 64, true, false⟩]
  defaultRoute := some (0x0a000202, 100)
  defaultRoute6 := some (0xfe800000000000000000000000000002, 0)

theorem refused_deletion_retried :
    Keyed strayed ∧ Consistent wished ∧
      plan (apply (tables fun _ op => if op matches .delAddress _ then some (.os 1) else none)
        strayed (plan strayed wished)).1 wished = [.delAddress (.new 2 (.v4 0xc0a80909) 24)] := by
  have keyed : Keyed strayed := ⟨by decide, by decide⟩
  have consistent : Consistent wished := ⟨by decide, by decide⟩
  refine ⟨keyed, consistent, ((next_plan_is_refused strayed wished keyed consistent).1 _).trans ?_⟩
  decide +kernel

end Netd.Model.Reconcile
