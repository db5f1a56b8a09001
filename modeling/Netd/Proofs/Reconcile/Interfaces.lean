import Netd.Proofs.Reconcile.Ownership

/-! # Several interfaces, one route table

`reconcile_all` plans every managed interface against one snapshot and applies the plans in turn
to the table they share. IPv4 routes are appended, so no interface is in another's way. An IPv6
default route is added exclusively: it is refused when a route of its metric is there, on
whichever interface, and the refusal passes for benign. What one turn does to the table is exact,
and gives the exact condition under which every desired route is installed in the end.
-/

namespace Netd.Model.Reconcile

open KeyedTable

variable (rest : Observed → Op → Option IoError)

/-! ## Single requests -/

theorem linux_request (o : Observed) (op : Op) :
    (linux rest).after o op =
      match linuxRefuse rest o op with
      | some _ => o
      | none => perform o op := by
  rw [Rtnl.after, linux, request_tables]
  cases linuxRefuse rest o op <;> rfl

theorem after_elsewhere {o : Observed} {op : Op} (elsewhere : op.onRoutes = none) :
    ((linux rest).after o op).routes = o.routes := by
  rw [linux_request]
  cases linuxRefuse rest o op with
  | some _ => rfl
  | none => cases op <;> first | rfl | contradiction

theorem mem_after_delRoute {o : Observed} {r item : Route} :
    item ∈ ((linux rest).after o (.delRoute r)).routes ↔ item ∈ o.routes ∧ r ≠ item := by
  rw [linux_request, linuxRefuse]
  split_ifs with present
  · exact mem_drop
  · constructor
    · intro member
      exact ⟨member, fun same => present (same ▸ member)⟩
    · exact And.left

/-- Nothing an exclusive addition collides with, where the route's family is added exclusively. -/
def Free (routes : List Route) (r : Route) : Prop :=
  r.isV4 = true ∨ ∀ other ∈ routes, sameSlot other r = false

theorem mem_perform_addRoute {o : Observed} {r item : Route} :
    item ∈ (perform o (.addRoute r)).routes ↔ item ∈ o.routes ∨ item = r := by
  refine mem_put.trans ?_
  constructor
  · rintro (same | ⟨member, _⟩)
    · exact .inr same
    · exact .inl member
  · rintro (member | same)
    · by_cases same : item = r
      · exact .inl same
      · exact .inr ⟨member, fun other => same other.symm⟩
    · exact .inl same

theorem mem_after_addRoute {o : Observed} {r item : Route} :
    item ∈ ((linux rest).after o (.addRoute r)).routes ↔
      item ∈ o.routes ∨ item = r ∧ Free o.routes r := by
  rw [linux_request, linuxRefuse, createFlags, Free]
  cases family : r.isV4 with
  | true =>
    simp only [↓reduceIte, true_or, and_true]
    split_ifs with occupied
    · have present : r ∈ o.routes := by simpa using occupied
      exact ⟨.inl, fun either => either.elim id fun same => same ▸ present⟩
    · exact mem_perform_addRoute
  | false =>
    simp only [Bool.false_eq_true, ↓reduceIte, false_or]
    split_ifs with occupied
    · obtain ⟨other, member, same⟩ := List.any_eq_true.mp occupied
      refine ⟨.inl, fun either => either.elim id fun ⟨_, free⟩ => ?_⟩
      rw [free other member] at same
      contradiction
    · have free : ∀ other ∈ o.routes, sameSlot other r = false := by simpa using occupied
      rw [and_iff_left free]
      exact mem_perform_addRoute

/-! ## One turn -/

theorem foldl_after_elsewhere {o : Observed} {ops : List Op}
    (elsewhere : ∀ op ∈ ops, op.onRoutes = none) :
    (ops.foldl (linux rest).after o).routes = o.routes := by
  induction ops generalizing o with
  | nil => rfl
  | cons op later ih =>
    obtain ⟨here, others⟩ := List.forall_mem_cons.mp elsewhere
    exact (ih others).trans (after_elsewhere rest here)

theorem mem_foldl_delRoute {o : Observed} {gone : List Route} {item : Route} :
    item ∈ ((gone.map Op.delRoute).foldl (linux rest).after o).routes ↔
      item ∈ o.routes ∧ item ∉ gone := by
  induction gone generalizing o with
  | nil => simp
  | cons r later ih =>
    rw [List.map_cons, List.foldl_cons, ih, mem_after_delRoute, List.mem_cons, not_or, and_assoc,
      ne_comm]

/-- Additions that do not collide with each other are decided by the table they start from. -/
theorem mem_foldl_addRoute {o : Observed} {come : List Route} {item : Route}
    (apart : come.Pairwise fun first second =>
      second.isV4 = true ∨ sameSlot first second = false) :
    item ∈ ((come.map Op.addRoute).foldl (linux rest).after o).routes ↔
      item ∈ o.routes ∨ item ∈ come ∧ Free o.routes item := by
  induction come generalizing o with
  | nil => simp
  | cons r later ih =>
    obtain ⟨first, others⟩ := List.pairwise_cons.mp apart
    have same (member : item ∈ later) :
        Free ((linux rest).after o (.addRoute r)).routes item ↔ Free o.routes item := by
      apply or_congr_right'
      intro exclusive
      have other := (first item member).resolve_left exclusive
      constructor
      · intro free route present
        exact free route ((mem_after_addRoute rest).mpr (.inl present))
      · intro free route present
        rcases (mem_after_addRoute rest).mp present with old | ⟨rfl, _⟩
        · exact free route old
        · exact other
    rw [List.map_cons, List.foldl_cons, ih others, mem_after_addRoute, List.mem_cons]
    constructor
    · rintro ((old | ⟨rfl, free⟩) | ⟨member, free⟩)
      · exact .inl old
      · exact .inr ⟨.inl rfl, free⟩
      · exact .inr ⟨.inr member, (same member).mp free⟩
    · rintro (old | ⟨rfl | member, free⟩)
      · exact .inl (.inl old)
      · exact .inl (.inr ⟨rfl, free⟩)
      · exact .inr ⟨member, (same member).mpr free⟩

/-- An exclusively added route is the IPv6 default route. -/
theorem wantDefault6_of_exclusive {d : Desired} {r : Route} (wanted : r ∈ wantRoutes d)
    (exclusive : r.isV4 = false) : r ∈ wantDefault6 d := by
  rcases mem_wantRoutes.mp wanted with member | member
  · obtain ⟨_, _, _, _, rfl⟩ := mem_wantRoutes4 member
    contradiction
  · exact member

theorem sameSlot_iff {first second : Route} :
    sameSlot first second = true ↔ first.destination = second.destination ∧
      first.prefixLength = second.prefixLength ∧ first.metric = second.metric := by
  simp [sameSlot]

theorem isV4_of_sameSlot {first second : Route} (same : sameSlot first second = true) :
    first.isV4 = second.isV4 := by
  rw [Route.isV4, Route.isV4, (sameSlot_iff.mp same).1]

/-- One desired state does not collide with itself. -/
theorem wantRoutes_apart {d : Desired} {first second : Route} (left : first ∈ wantRoutes d)
    (right : second ∈ wantRoutes d) (exclusive : second.isV4 = false)
    (same : sameSlot first second = true) : first = second := by
  have one := wantDefault6_of_exclusive left ((isV4_of_sameSlot same).trans exclusive)
  have two := wantDefault6_of_exclusive right exclusive
  exact Option.mem_unique one two

theorem free_congr {first second : List Route} {r : Route}
    (same : ∀ other, other ∈ first ↔ other ∈ second) : Free first r ↔ Free second r :=
  or_congr_right (forall_congr' fun other => imp_congr_left (same other))

theorem missing_apart (d : Desired) (present : List Route) :
    (missing present (wantRoutes d)).Pairwise fun first second =>
      second.isV4 = true ∨ sameSlot first second = false := by
  refine ((List.collect_pairwise _).filter _).imp_of_mem fun {first second} left right less => ?_
  by_contra clash
  obtain ⟨exclusive, same⟩ := not_or.mp clash
  exact less.ne (wantRoutes_apart (mem_missing.mp left).1 (mem_missing.mp right).1
    (Bool.eq_false_iff.mpr exclusive) (Bool.eq_true_of_not_eq_false same))

/-- A turn is its deletions followed by its additions. -/
theorem mem_apply_plan {o state : Observed} {d : Desired} {link : Link} {item : Route}
    (found : o.links.lookup d.index = some link) :
    item ∈ (apply (linux rest) state (plan o d)).1.routes ↔
      (item ∈ state.routes ∧ item ∉ stale id (haveRoutes o d.index) (wantRoutes d)) ∨
        item ∈ missing (haveRoutes o d.index) (wantRoutes d) ∧
          Free (state.routes.filter
            fun r => r ∉ stale id (haveRoutes o d.index) (wantRoutes d)) item := by
  have up : ∀ op ∈ planLinkUp link d, op.onRoutes = none := fun op member =>
    mem_planLinkUp member ▸ rfl
  have mtu : ∀ op ∈ planMtu link d, op.onRoutes = none := fun op member => by
    obtain ⟨_, rfl⟩ := mem_planMtu member
    rfl
  have addresses : ∀ op ∈ planAddresses o d, op.onRoutes = none := fun op member => by
    rcases mem_planAddresses.mp member with ⟨_, _, rfl⟩ | ⟨_, _, rfl⟩ <;> rfl
  have down : ∀ op ∈ planLinkDown link d, op.onRoutes = none := fun op member =>
    mem_planLinkDown member ▸ rfl
  rw [apply_fst, plan_of_link found]
  simp only [List.foldl_append]
  rw [foldl_after_elsewhere rest down, planRoutes_eq, List.foldl_append,
    mem_foldl_addRoute rest (missing_apart d _), mem_foldl_delRoute,
    foldl_after_elsewhere rest addresses, foldl_after_elsewhere rest mtu,
    foldl_after_elsewhere rest up]
  refine or_congr_right (and_congr_right fun _ => free_congr fun other => ?_)
  rw [mem_foldl_delRoute, foldl_after_elsewhere rest addresses, foldl_after_elsewhere rest mtu,
    foldl_after_elsewhere rest up, List.mem_filter, decide_eq_true_iff]

/-- A turn leaves the routes of other interfaces alone. -/
theorem mem_turn_other {o state : Observed} {d : Desired} {link : Link} {item : Route}
    (found : o.links.lookup d.index = some link) (other : item.index ≠ d.index) :
    item ∈ (apply (linux rest) state (plan o d)).1.routes ↔ item ∈ state.routes := by
  have kept : item ∉ stale id (haveRoutes o d.index) (wantRoutes d) := fun gone =>
    other (ownsRoute_iff.mp (mem_haveRoutes.mp (mem_stale.mp gone).1).2).1
  have absent : item ∉ missing (haveRoutes o d.index) (wantRoutes d) := fun comes =>
    other (ownsRoute_iff.mp (wantRoutes_owned (mem_missing.mp comes).1)).1
  rw [mem_apply_plan rest found]
  simp [kept, absent]

/-- After its turn an interface has the wanted routes that it had already or that were free. -/
theorem mem_turn_own {o state : Observed} {d : Desired} {link : Link} {item : Route}
    (found : o.links.lookup d.index = some link)
    (stamped : ∀ r ∈ o.routes, r.protocol = rtprotNetd)
    (agree : ∀ r, r.index = d.index → (r ∈ state.routes ↔ r ∈ o.routes))
    (own : item.index = d.index) :
    item ∈ (apply (linux rest) state (plan o d)).1.routes ↔
      item ∈ wantRoutes d ∧
        (item ∈ o.routes ∨ Free (state.routes.filter fun r => r.index ≠ d.index) item) := by
  have had (r : Route) (mine : r.index = d.index) : r ∈ haveRoutes o d.index ↔ r ∈ o.routes := by
    rw [mem_haveRoutes, ownsRoute_iff]
    exact ⟨And.left, fun stored => ⟨stored, mine, stamped r stored⟩⟩
  have gone (r : Route) (mine : r.index = d.index) :
      r ∈ stale id (haveRoutes o d.index) (wantRoutes d) ↔ r ∈ o.routes ∧ r ∉ wantRoutes d := by
    rw [mem_stale, had r mine]
    exact and_congr_right fun _ => ⟨fun unwanted wanted => unwanted r wanted rfl,
      fun unwanted wanted member same => unwanted ((show wanted = r from same) ▸ member)⟩
  have shared (wanted : item ∈ wantRoutes d) (absent : item ∉ o.routes) :
      Free (state.routes.filter
          fun r => r ∉ stale id (haveRoutes o d.index) (wantRoutes d)) item ↔
        Free (state.routes.filter fun r => r.index ≠ d.index) item := by
    apply or_congr_right'
    intro exclusive
    simp only [List.mem_filter, decide_eq_true_iff, and_imp]
    constructor
    · intro free r present other
      exact free r present fun old => other
        (ownsRoute_iff.mp (mem_haveRoutes.mp (mem_stale.mp old).1).2).1
    · intro free r present kept
      by_cases mine : r.index = d.index
      · -- The interface's own routes that stay are wanted, and two wanted ones never collide.
        by_contra clash
        have stored := (agree r mine).mp present
        have also : r ∈ wantRoutes d := by
          by_contra unwanted
          exact kept ((gone r mine).mpr ⟨stored, unwanted⟩)
        have same := wantRoutes_apart also wanted (Bool.eq_false_iff.mpr exclusive)
          (Bool.eq_true_of_not_eq_false clash)
        exact absent (same ▸ stored)
      · exact free r present mine
  rw [mem_apply_plan rest found, mem_missing, agree item own, gone item own, had item own]
  by_cases stored : item ∈ o.routes
  · simp [stored]
  · by_cases wanted : item ∈ wantRoutes d
    · rw [shared wanted stored]
      simp [stored, wanted]
    · simp [stored, wanted]

/-! ## All turns -/

/-- The premises of a pass over several interfaces: each has an index of its own and a link, and
the table holds no route of another protocol. -/
structure Managed (o : Observed) (ds : List Desired) : Prop where
  distinct : (ds.map Desired.index).Nodup
  linked : ∀ d ∈ ds, ∃ link, o.links.lookup d.index = some link
  stamped : ∀ r ∈ o.routes, r.protocol = rtprotNetd

/-- Every desired route of every interface is installed, and no plan would change a route. -/
def Converged (o : Observed) (ds : List Desired) : Prop :=
  (∀ d ∈ ds, ∀ op ∈ plan (reconcileAll (linux rest) o o ds) d, op.onRoutes = none) ∧
    ∀ d ∈ ds, ∀ r ∈ wantRoutes d, r ∈ (reconcileAll (linux rest) o o ds).routes

/-- Where an interface still lacks its IPv6 default route, no interface before it wants one of
the same metric, and no interface other than it and those before it starts out with one. -/
def SlotFree (o : Observed) (earlier : List Desired) (d : Desired) : Prop :=
  ∀ r ∈ wantDefault6 d, r ∉ o.routes →
    (∀ e ∈ earlier, ∀ other ∈ wantDefault6 e, other.metric ≠ r.metric) ∧
      ∀ other ∈ o.routes, sameSlot other r = true →
        other.index = d.index ∨ other.index ∈ earlier.map Desired.index

theorem mem_reconcileAll_other {o state : Observed} {ds : List Desired} {item : Route}
    (linked : ∀ d ∈ ds, ∃ link, o.links.lookup d.index = some link)
    (other : item.index ∉ ds.map Desired.index) :
    item ∈ (reconcileAll (linux rest) o state ds).routes ↔ item ∈ state.routes := by
  induction ds generalizing state with
  | nil => rfl
  | cons d later ih =>
    obtain ⟨⟨link, found⟩, links⟩ := List.forall_mem_cons.mp linked
    rw [List.map_cons, List.mem_cons, not_or] at other
    exact (ih links other.2).trans (mem_turn_other rest found other.1)

theorem reconcileAll_append (o state : Observed) (earlier later : List Desired) :
    reconcileAll (linux rest) o state (earlier ++ later) =
      reconcileAll (linux rest) o (reconcileAll (linux rest) o state earlier) later :=
  List.foldl_append

/-- What an interface has in the end was decided in its turn. -/
theorem mem_reconcileAll_own {o : Observed} {earlier later : List Desired} {d : Desired}
    {item : Route} (managed : Managed o (earlier ++ d :: later)) (own : item.index = d.index) :
    item ∈ (reconcileAll (linux rest) o o (earlier ++ d :: later)).routes ↔
      item ∈ wantRoutes d ∧ (item ∈ o.routes ∨
        Free ((reconcileAll (linux rest) o o earlier).routes.filter fun r => r.index ≠ d.index)
          item) := by
  obtain ⟨before, turn⟩ := List.forall_mem_append.mp managed.linked
  obtain ⟨⟨link, found⟩, after⟩ := List.forall_mem_cons.mp turn
  have distinct := managed.distinct
  rw [List.map_append, List.map_cons, List.nodup_append] at distinct
  obtain ⟨-, tail, cross⟩ := distinct
  have notLater : item.index ∉ later.map Desired.index := own ▸ (List.nodup_cons.mp tail).1
  have agree (r : Route) (mine : r.index = d.index) :
      r ∈ (reconcileAll (linux rest) o o earlier).routes ↔ r ∈ o.routes := by
    apply mem_reconcileAll_other rest before
    intro early
    exact cross _ early _ (List.mem_cons_self ..) mine
  rw [reconcileAll_append]
  exact (mem_reconcileAll_other rest after notLater).trans
    (mem_turn_own rest found managed.stamped agree own)

theorem wantRoutes_index {d : Desired} {r : Route} (wanted : r ∈ wantRoutes d) : r.index = d.index :=
  (ownsRoute_iff.mp (wantRoutes_owned wanted)).1

/-- IPv6 default routes collide on their metric alone. -/
theorem sameSlot_default6 {d e : Desired} {r other : Route} (one : r ∈ wantDefault6 d)
    (two : other ∈ wantDefault6 e) : sameSlot other r = true ↔ other.metric = r.metric := by
  obtain ⟨_, _, _, rfl⟩ := mem_wantDefault6 one
  obtain ⟨_, _, _, rfl⟩ := mem_wantDefault6 two
  simp [sameSlot_iff, netdRoute]

theorem exclusive_default6 {d : Desired} {r : Route} (wanted : r ∈ wantDefault6 d) :
    r.isV4 = false := by
  obtain ⟨_, _, _, rfl⟩ := mem_wantDefault6 wanted
  rfl

/-- Under the condition on a turn, the interface gets all of its routes in it. -/
theorem installed_of_slotFree {o : Observed} {earlier later : List Desired} {d : Desired}
    (managed : Managed o (earlier ++ d :: later)) (free : SlotFree o earlier d) {r : Route}
    (wanted : r ∈ wantRoutes d) :
    r ∈ (reconcileAll (linux rest) o o (earlier ++ d :: later)).routes := by
  refine (mem_reconcileAll_own rest managed (wantRoutes_index wanted)).mpr ⟨wanted, ?_⟩
  refine or_iff_not_imp_left.mpr fun absent => or_iff_not_imp_left.mpr fun exclusive => ?_
  have exclusive : r.isV4 = false := Bool.eq_false_iff.mpr exclusive
  have default6 := wantDefault6_of_exclusive wanted exclusive
  obtain ⟨unclaimed, unoccupied⟩ := free r default6 absent
  intro other present
  obtain ⟨present, foreign⟩ := List.mem_filter.mp present
  have foreign : other.index ≠ d.index := of_decide_eq_true foreign
  by_contra clash
  have same : sameSlot other r = true := Bool.eq_true_of_not_eq_false clash
  by_cases early : other.index ∈ earlier.map Desired.index
  · -- The route of an interface before it: that interface wants an IPv6 default route.
    obtain ⟨e, member, index⟩ := List.mem_map.mp early
    obtain ⟨first, second, rfl⟩ := List.append_of_mem member
    have earlierManaged : Managed o (first ++ e :: second) :=
      ⟨(List.map_append ▸ managed.distinct).of_append_left,
        (List.forall_mem_append.mp managed.linked).1, managed.stamped⟩
    have claimed := ((mem_reconcileAll_own rest earlierManaged index.symm).mp present).1
    have exclusive := (isV4_of_sameSlot same).trans exclusive
    have two := wantDefault6_of_exclusive claimed exclusive
    exact unclaimed e member other two ((sameSlot_default6 default6 two).mp same)
  · have stored := (mem_reconcileAll_other rest (List.forall_mem_append.mp managed.linked).1
      early).mp present
    exact (unoccupied other stored same).elim foreign early

/-- An interface that got its IPv6 default route found its slot free. -/
theorem slotFree_of_installed {o : Observed} {earlier later : List Desired} {d : Desired}
    (managed : Managed o (earlier ++ d :: later))
    (installed : ∀ e ∈ earlier ++ d :: later, ∀ r ∈ wantRoutes e,
      r ∈ (reconcileAll (linux rest) o o (earlier ++ d :: later)).routes) : SlotFree o earlier d := by
  intro r default6 absent
  have wanted : r ∈ wantRoutes d := mem_wantRoutes.mpr (.inr default6)
  have present := installed d (by simp) r wanted
  have decided := (mem_reconcileAll_own rest managed (wantRoutes_index wanted)).mp present
  have free := (decided.2.resolve_left absent).resolve_left
    (Bool.eq_false_iff.mp (exclusive_default6 default6))
  have distinct := managed.distinct
  rw [List.map_append, List.map_cons, List.nodup_append] at distinct
  obtain ⟨-, -, cross⟩ := distinct
  obtain ⟨before, turn⟩ := List.forall_mem_append.mp managed.linked
  constructor
  · intro e early other claimed same
    have wanted : other ∈ wantRoutes e := mem_wantRoutes.mpr (.inr claimed)
    have index := wantRoutes_index wanted
    have apart := cross _ (List.mem_map_of_mem early)
    have late : other.index ∉ (d :: later).map Desired.index := fun again =>
      apart _ again index.symm
    have there := installed e (List.mem_append_left _ early) other wanted
    rw [reconcileAll_append, mem_reconcileAll_other rest turn late] at there
    have foreign : other.index ≠ d.index := index ▸ apart _ (List.mem_cons_self ..)
    have clear := free other (List.mem_filter.mpr ⟨there, decide_eq_true foreign⟩)
    rw [(sameSlot_default6 default6 claimed).mpr same] at clear
    contradiction
  · intro other stored same
    by_contra elsewhere
    obtain ⟨foreign, late⟩ := not_or.mp elsewhere
    have there := (mem_reconcileAll_other rest before late).mpr stored
    have clear := free other (List.mem_filter.mpr ⟨there, decide_eq_true foreign⟩)
    rw [clear] at same
    contradiction

/-- An interface with exactly its wanted routes has nothing left to do about routes. -/
theorem no_route_ops {o : Observed} {d : Desired}
    (only : ∀ r ∈ o.routes, r.index = d.index → r ∈ wantRoutes d)
    (all : ∀ r ∈ wantRoutes d, r ∈ o.routes) : ∀ op ∈ plan o d, op.onRoutes = none := by
  intro op planned
  obtain ⟨link, up | mtu | addresses | routes | down⟩ := mem_plan planned
  · rw [mem_planLinkUp up]
    rfl
  · obtain ⟨_, rfl⟩ := mem_planMtu mtu
    rfl
  · rcases mem_planAddresses.mp addresses with ⟨_, _, rfl⟩ | ⟨_, _, rfl⟩ <;> rfl
  · rcases mem_planRoutes.mp routes with ⟨r, gone, rfl⟩ | ⟨r, comes, rfl⟩
    · obtain ⟨present, unwanted⟩ := mem_stale.mp gone
      obtain ⟨stored, owned⟩ := mem_haveRoutes.mp present
      exact absurd rfl (unwanted r (only r stored (ownsRoute_iff.mp owned).1))
    · obtain ⟨wanted, absent⟩ := mem_missing.mp comes
      exact absurd (mem_haveRoutes.mpr ⟨all r wanted, wantRoutes_owned wanted⟩) absent
  · rw [mem_planLinkDown down]
    rfl

/-- One pass installs every desired route of every interface, and leaves no route to change, if
and only if each interface finds the slot of its IPv6 default route free in its turn. -/
theorem converged_iff_slots_free (o : Observed) (ds : List Desired) (managed : Managed o ds) :
    Converged rest o ds ↔
      ∀ earlier d later, ds = earlier ++ d :: later → SlotFree o earlier d := by
  constructor
  · rintro ⟨-, installed⟩ earlier d later rfl
    exact slotFree_of_installed rest managed installed
  · intro free
    have installed : ∀ d ∈ ds, ∀ r ∈ wantRoutes d,
        r ∈ (reconcileAll (linux rest) o o ds).routes := by
      intro d member r wanted
      obtain ⟨earlier, later, rfl⟩ := List.append_of_mem member
      exact installed_of_slotFree rest managed (free earlier d later rfl) wanted
    refine ⟨fun d member => no_route_ops (fun r present own => ?_) (installed d member), installed⟩
    obtain ⟨earlier, later, rfl⟩ := List.append_of_mem member
    exact ((mem_reconcileAll_own rest managed own).mp present).1

/-- A wired link that is up. -/
def wired (index : U32) : Link where
  index
  name := "eth"
  mac := none
  up := true
  carrier := true
  loopback := false
  mtu := 1500
  linkType := 1
  kind := .ether

/-- Two wired links and no route. -/
def twoWired : Observed where
  links := (SortedMap.empty.insert 2 (wired 2)).insert 3 (wired 3)
  addresses := []
  routes := []

/-- An interface on which a router advertised itself. -/
def routed (index metric : U32) : Desired where
  index
  up := true
  defaultRoute6 := some (0xfe800000000000000000000000000001, metric)

theorem managed_twoWired (first second : U32) :
    Managed twoWired [routed 2 first, routed 3 second] where
  distinct := by simp [routed]
  linked := by
    rintro d member
    rcases List.mem_pair.mp member with rfl | rfl
    · exact ⟨wired 2, rfl⟩
    · exact ⟨wired 3, rfl⟩
  stamped _ member := absurd member List.not_mem_nil

theorem distinct_metrics_converge :
    Converged (fun _ _ => none) twoWired [routed 2 100, routed 3 600] := by
  apply (converged_iff_slots_free _ _ _ (managed_twoWired 100 600)).mpr
  intro earlier d later same r wanted _
  refine ⟨?_, fun other stored => absurd stored List.not_mem_nil⟩
  intro e early other claimed
  rcases earlier with _ | ⟨first, _ | ⟨second, others⟩⟩
  · exact absurd early List.not_mem_nil
  · obtain ⟨rfl, tail⟩ := List.cons.inj same
    obtain ⟨rfl, -⟩ := List.cons.inj tail
    obtain rfl := List.mem_singleton.mp early
    obtain rfl := Option.some.inj wanted
    obtain rfl := Option.some.inj claimed
    decide
  · simp at same

/-- With the default metric of wired links on both, the second interface never gets its IPv6
default route. -/
theorem second_default_route_missing :
    Managed twoWired [routed 2 100, routed 3 100] ∧
      ¬Converged (fun _ _ => none) twoWired [routed 2 100, routed 3 100] := by
  refine ⟨managed_twoWired 100 100, fun converged => ?_⟩
  have installed := converged.2 (routed 3 100) (by decide)
    (netdRoute 3 (.v6 0) 0 (.v6 0xfe800000000000000000000000000001) 100) (by decide +kernel)
  revert installed
  decide +kernel

end Netd.Model.Reconcile
