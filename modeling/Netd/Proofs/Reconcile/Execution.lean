import Netd.Model.Reconcile

/-! # Plans as table differences, and tables after part of a plan

A plan is two keyed differences, one for addresses and one for routes, between the changes to the
link itself. A kernel that refuses some operations has carried out a sublist of the plan; each
table then has seen exactly the changes of that sublist which address it.
-/

namespace Netd.Model.Reconcile

open KeyedTable

/-! ## What operations do to each table -/

def Op.onAddresses : Op → Option (Change Address)
  | .addAddress a _ => some (.put a)
  | .delAddress a => some (.drop a)
  | _ => none

def Op.onRoutes : Op → Option (Change Route)
  | .addRoute r => some (.put r)
  | .delRoute r => some (.drop r)
  | _ => none

def Op.onLink (index : U32) (link : Link) : Op → Link
  | .linkUp i => if index = i then { link with up := true } else link
  | .linkDown i => if index = i then { link with up := false } else link
  | .mtu i m => if index = i then { link with mtu := m } else link
  | _ => link

theorem foldl_perform_addresses (o : Observed) (ops : List Op) :
    (ops.foldl perform o).addresses = run Address.key o.addresses (ops.filterMap Op.onAddresses) := by
  induction ops generalizing o with
  | nil => rfl
  | cons op rest ih => cases op <;> exact ih _

theorem foldl_perform_routes (o : Observed) (ops : List Op) :
    (ops.foldl perform o).routes = run id o.routes (ops.filterMap Op.onRoutes) := by
  induction ops generalizing o with
  | nil => rfl
  | cons op rest ih => cases op <;> exact ih _

theorem perform_link (o : Observed) (op : Op) (index : U32) :
    (perform o op).links.lookup index = (o.links.lookup index).map fun link => op.onLink index link := by
  have same : (o.links.lookup index).map (fun link => link) = o.links.lookup index :=
    congrFun Option.map_id _
  cases op with
  | linkUp i | linkDown i | mtu i mtu =>
    refine (SortedMap.lookup_modify ..).trans ?_
    simp only [Op.onLink]
    split_ifs
    · rfl
    · exact same.symm
  | addAddress a b => exact same.symm
  | delAddress a => exact same.symm
  | addRoute r => exact same.symm
  | delRoute r => exact same.symm

theorem foldl_perform_link (o : Observed) (ops : List Op) (index : U32) :
    (ops.foldl perform o).links.lookup index =
      (o.links.lookup index).map fun link => ops.foldl (Op.onLink index) link := by
  induction ops generalizing o with
  | nil => exact (congrFun Option.map_id _).symm
  | cons op rest ih =>
    rw [List.foldl_cons, ih, perform_link, Option.map_map]
    rfl

theorem foldl_onLink_inert {index : U32} {link : Link} {ops : List Op}
    (inert : ∀ op ∈ ops, ∀ link, op.onLink index link = link) :
    ops.foldl (Op.onLink index) link = link := by
  induction ops with
  | nil => rfl
  | cons op rest ih =>
    obtain ⟨first, later⟩ := List.forall_mem_cons.mp inert
    rw [List.foldl_cons, first link, ih later]

/-! ## What a refusing kernel carries out -/

theorem request_tables (refuse : Observed → Op → Option IoError) (o : Observed) (op : Op) :
    (tables refuse).request o op =
      match refuse o op with
      | some error => .error error
      | none => .ok (perform o op) := by
  cases op <;> rfl

/-- The state a request leaves, whether or not it was refused. -/
def Rtnl.after {σ : Type*} (rtnl : Rtnl σ) (state : σ) (op : Op) : σ :=
  match rtnl.request state op with
  | .ok next => next
  | .error _ => state

/-- One failed operation does not stop the next. -/
theorem apply_fst {σ : Type*} (rtnl : Rtnl σ) (state : σ) (ops : List Op) :
    (apply rtnl state ops).1 = ops.foldl rtnl.after state := by
  refine (List.foldl_hom Prod.fst fun before op => ?_).symm
  obtain ⟨state, failures⟩ := before
  dsimp only [Rtnl.after]
  cases rtnl.request state op with
  | ok next => rfl
  | error error => rfl

/-- A kernel whose refusals do not depend on its state carries out the rest of the operations. -/
theorem apply_refused (refuse : Op → Option IoError) (o : Observed) (ops : List Op) :
    (apply (tables fun _ => refuse) o ops).1 =
      (ops.filter fun op => (refuse op).isNone).foldl perform o := by
  rw [apply_fst, List.foldl_filter]
  congr 1
  funext state op
  rw [Rtnl.after, request_tables]
  cases refuse op <;> rfl

/-- Whatever a kernel refuses, it carries out a sublist of the operations. -/
theorem apply_sublist (refuse : Observed → Op → Option IoError) (o : Observed) (ops : List Op) :
    ∃ done : List Op, done.Sublist ops ∧ (apply (tables refuse) o ops).1 = done.foldl perform o := by
  rw [apply_fst]
  induction ops generalizing o with
  | nil => exact ⟨[], .slnil, rfl⟩
  | cons op rest ih =>
    rw [List.foldl_cons, Rtnl.after, request_tables]
    cases refuse o op with
    | none =>
      obtain ⟨done, sub, same⟩ := ih (perform o op)
      exact ⟨op :: done, sub.cons_cons op, same⟩
    | some error =>
      obtain ⟨done, sub, same⟩ := ih o
      exact ⟨done, sub.cons op, same⟩

/-! ## Plans as differences -/

/-- Addresses of an interface that are netd's to manage. -/
def ownsAddress (index : U32) (a : Address) : Bool := a.index = index && !a.isLinkLocal6

/-- Routes of an interface that netd stamped. -/
def ownsRoute (index : U32) (r : Route) : Bool := r.index = index && r.protocol = rtprotNetd

theorem haveAddresses_eq (o : Observed) (index : U32) :
    haveAddresses o index = seen (ownsAddress index) Address.settled o.addresses := by
  rw [haveAddresses, Observed.addressesOf, List.filter_filter, seen]
  congr 3
  exact funext fun a => Bool.and_comm ..

theorem haveRoutes_eq (o : Observed) (index : U32) :
    haveRoutes o index = seen (ownsRoute index) id o.routes := by
  rw [haveRoutes, Observed.routesOf, List.filter_filter, seen, List.map_id]
  congr 2
  exact funext fun r => Bool.and_comm ..

theorem mem_wantAddresses {d : Desired} {a : Address} : a ∈ wantAddresses d ↔
    (∃ entry ∈ d.addresses, Address.new d.index (.v4 entry.1) entry.2 = a) ∨
      ∃ entry ∈ d.addresses6, entry.onLink d.index = a := by
  rw [wantAddresses, List.mem_collect, List.mem_append, List.mem_map, List.mem_map]

theorem wantAddresses_index {d : Desired} {a : Address} (member : a ∈ wantAddresses d) :
    a.index = d.index := by
  rcases mem_wantAddresses.mp member with ⟨_, _, rfl⟩ | ⟨_, _, rfl⟩ <;> rfl

theorem wantAddresses_settled {d : Desired} {a : Address} (member : a ∈ wantAddresses d) :
    a.settled = a := by
  rcases mem_wantAddresses.mp member with ⟨_, _, rfl⟩ | ⟨_, _, rfl⟩ <;> rfl

theorem mem_wantRoutes4 {d : Desired} {r : Route} (member : r ∈ wantRoutes4 d) :
    ∃ destination length gateway metric,
      r = netdRoute d.index (.v4 destination) length (.v4 gateway) metric := by
  rw [wantRoutes4, List.mem_append, List.mem_map, Option.mem_toList,
    Option.map_eq_some_iff] at member
  rcases member with ⟨_, _, rfl⟩ | ⟨_, _, rfl⟩ <;> exact ⟨_, _, _, _, rfl⟩

theorem mem_wantDefault6 {d : Desired} {r : Route} (member : r ∈ wantDefault6 d) :
    ∃ gateway metric, (gateway, metric) ∈ d.defaultRoute6 ∧
      r = netdRoute d.index (.v6 Ipv6Addr.unspecified) 0 (.v6 gateway) (metric6 metric) := by
  obtain ⟨⟨gateway, metric⟩, given, rfl⟩ := Option.mem_map.mp member
  exact ⟨gateway, metric, given, rfl⟩

theorem mem_wantRoutes {d : Desired} {r : Route} :
    r ∈ wantRoutes d ↔ r ∈ wantRoutes4 d ∨ r ∈ wantDefault6 d := by
  rw [wantRoutes, List.mem_collect, List.mem_append, Option.mem_toList, Option.mem_def]

/-- Every route netd asks for is stamped and on the interface it is asked for. -/
theorem wantRoutes_owned {d : Desired} {r : Route} (member : r ∈ wantRoutes d) :
    ownsRoute d.index r = true := by
  rcases mem_wantRoutes.mp member with member | member
  · obtain ⟨_, _, _, _, rfl⟩ := mem_wantRoutes4 member
    simp [ownsRoute, netdRoute]
  · obtain ⟨_, _, _, rfl⟩ := mem_wantDefault6 member
    simp [ownsRoute, netdRoute]

theorem mem_haveAddresses {o : Observed} {index : U32} {a : Address} :
    a ∈ haveAddresses o index ↔
      ∃ entry ∈ o.addresses, ownsAddress index entry = true ∧ entry.settled = a := by
  rw [haveAddresses_eq, mem_seen]

theorem mem_haveRoutes {o : Observed} {index : U32} {r : Route} :
    r ∈ haveRoutes o index ↔ r ∈ o.routes ∧ ownsRoute index r = true := by
  simp [haveRoutes_eq, mem_seen]

/-- Within one interface the key without its index is the key. -/
theorem planAddresses_eq (o : Observed) (d : Desired) :
    planAddresses o d =
      (stale Address.key (haveAddresses o d.index) (wantAddresses d)).map .delAddress ++
        (missing (haveAddresses o d.index) (wantAddresses d)).map (.addAddress · d.broadcast) := by
  refine congrArg₂ (· ++ ·) (congrArg (List.map _) (List.filter_congr fun a member => congrArg not ?_))
    (congrArg (List.map _) (List.filter_congr fun _ _ => decide_eq_decide.mpr Iff.rfl))
  obtain ⟨entry, _, owned, rfl⟩ := mem_haveAddresses.mp member
  have index : entry.settled.index = d.index :=
    of_decide_eq_true (Bool.and_eq_true_iff.mp owned).1
  rw [Bool.eq_iff_iff, List.any_eq_true, List.any_eq_true]
  refine exists_congr fun w => and_congr_right fun wanted => ?_
  simp [Address.key, index, wantAddresses_index wanted]

theorem planRoutes_eq (o : Observed) (d : Desired) :
    planRoutes o d = (stale id (haveRoutes o d.index) (wantRoutes d)).map .delRoute ++
      (missing (haveRoutes o d.index) (wantRoutes d)).map .addRoute := by
  refine congrArg₂ (· ++ ·) (congrArg (List.map _) (List.filter_congr fun r _ => ?_))
    (congrArg (List.map _) (List.filter_congr fun _ _ => decide_eq_decide.mpr Iff.rfl))
  rw [Bool.eq_iff_iff, decide_eq_true_iff, Bool.not_eq_true', List.any_eq_false]
  constructor
  · intro absent wanted member same
    have same : wanted = r := of_decide_eq_true same
    exact absent (same ▸ member)
  · intro none member
    exact none r member (decide_eq_true rfl)

theorem mem_planAddresses {o : Observed} {d : Desired} {op : Op} :
    op ∈ planAddresses o d ↔
      (∃ a ∈ stale Address.key (haveAddresses o d.index) (wantAddresses d), .delAddress a = op) ∨
        ∃ a ∈ missing (haveAddresses o d.index) (wantAddresses d), .addAddress a d.broadcast = op := by
  rw [planAddresses_eq, List.mem_append, List.mem_map, List.mem_map]

theorem mem_planRoutes {o : Observed} {d : Desired} {op : Op} :
    op ∈ planRoutes o d ↔
      (∃ r ∈ stale id (haveRoutes o d.index) (wantRoutes d), .delRoute r = op) ∨
        ∃ r ∈ missing (haveRoutes o d.index) (wantRoutes d), .addRoute r = op := by
  rw [planRoutes_eq, List.mem_append, List.mem_map, List.mem_map]

theorem mem_planLinkUp {link : Link} {d : Desired} {op : Op} (member : op ∈ planLinkUp link d) :
    op = .linkUp d.index := by
  rw [planLinkUp] at member
  split_ifs at member
  · exact List.mem_singleton.mp member
  · contradiction

theorem mem_planLinkDown {link : Link} {d : Desired} {op : Op} (member : op ∈ planLinkDown link d) :
    op = .linkDown d.index := by
  rw [planLinkDown] at member
  split_ifs at member
  · exact List.mem_singleton.mp member
  · contradiction

theorem mem_planMtu {link : Link} {d : Desired} {op : Op} (member : op ∈ planMtu link d) :
    ∃ mtu, op = .mtu d.index mtu := by
  rw [planMtu] at member
  split at member
  · split_ifs at member
    · exact ⟨_, List.mem_singleton.mp member⟩
    · contradiction
  · contradiction

theorem plan_of_link {o : Observed} {d : Desired} {link : Link}
    (found : o.links.lookup d.index = some link) :
    plan o d = planLinkUp link d ++ planMtu link d ++ planAddresses o d ++ planRoutes o d ++
      planLinkDown link d := by
  rw [plan, found]

theorem plan_of_no_link {o : Observed} {d : Desired} (absent : o.links.lookup d.index = none) :
    plan o d = [] := by
  rw [plan, absent]

end Netd.Model.Reconcile
