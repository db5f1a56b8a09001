import Netd.Proofs.Reconcile.Execution

/-! # A plan touches only what netd owns

Every operation is on the interface it was planned for, routes are deleted and added under
netd's stamp only, and no address is deleted that the desired state names. The order of a plan
and these permissions carry over to every point of its execution, whatever the kernel refuses.
-/

namespace Netd.Model.Reconcile

open KeyedTable

/-- The interface an operation is on. -/
def Op.index : Op → U32
  | .linkUp i | .linkDown i | .mtu i _ => i
  | .addAddress a _ | .delAddress a => a.index
  | .addRoute r | .delRoute r => r.index

/-- The desired state names an address with its prefix, whatever flags it asks for. -/
def Desired.Names (d : Desired) (address : IpAddr) (prefixLength : U8) : Prop :=
  (∃ entry ∈ d.addresses, .v4 entry.1 = address ∧ entry.2 = prefixLength) ∨
    ∃ entry ∈ d.addresses6, .v6 entry.address = address ∧ entry.prefixLength = prefixLength

/-- What an operation of a plan may be. -/
def Permitted (o : Observed) (d : Desired) (op : Op) : Prop :=
  op.index = d.index ∧
    match op with
    | .delRoute r => r ∈ o.routes ∧ r.protocol = rtprotNetd
    | .addRoute r => r.protocol = rtprotNetd
    | .delAddress a =>
      (∃ entry ∈ o.addresses, entry.settled = a ∧ entry.isLinkLocal6 = false) ∧
        ¬d.Names a.address a.prefixLength
    | _ => True

theorem names_iff {d : Desired} {address : IpAddr} {prefixLength : U8} :
    d.Names address prefixLength ↔
      ∃ wanted ∈ wantAddresses d, wanted.address = address ∧ wanted.prefixLength = prefixLength := by
  simp only [Desired.Names, mem_wantAddresses]
  constructor
  · rintro (⟨entry, member, rfl, rfl⟩ | ⟨entry, member, rfl, rfl⟩)
    · exact ⟨_, .inl ⟨entry, member, rfl⟩, rfl, rfl⟩
    · exact ⟨_, .inr ⟨entry, member, rfl⟩, rfl, rfl⟩
  · rintro ⟨_, ⟨entry, member, rfl⟩ | ⟨entry, member, rfl⟩, rfl, rfl⟩
    · exact .inl ⟨entry, member, rfl, rfl⟩
    · exact .inr ⟨entry, member, rfl, rfl⟩

theorem mem_plan {o : Observed} {d : Desired} {op : Op} (member : op ∈ plan o d) :
    ∃ link, op ∈ planLinkUp link d ∨ op ∈ planMtu link d ∨ op ∈ planAddresses o d ∨
      op ∈ planRoutes o d ∨ op ∈ planLinkDown link d := by
  cases found : o.links.lookup d.index with
  | none =>
    rw [plan_of_no_link found] at member
    contradiction
  | some link =>
    rw [plan_of_link found] at member
    simp only [List.mem_append, or_assoc] at member
    exact ⟨link, member⟩

theorem planAddresses_permitted {o : Observed} {d : Desired} {op : Op}
    (member : op ∈ planAddresses o d) : Permitted o d op := by
  rcases mem_planAddresses.mp member with ⟨a, gone, rfl⟩ | ⟨a, comes, rfl⟩
  · obtain ⟨old, unwanted⟩ := mem_stale.mp gone
    obtain ⟨entry, stored, owned, rfl⟩ := mem_haveAddresses.mp old
    obtain ⟨index, kernels⟩ := Bool.and_eq_true_iff.mp owned
    have index : entry.index = d.index := of_decide_eq_true index
    refine ⟨index, ⟨entry, stored, rfl, by simpa using kernels⟩, fun named => ?_⟩
    obtain ⟨wanted, member, address, length⟩ := names_iff.mp named
    apply unwanted wanted member
    have same : wanted.index = entry.settled.index :=
      (wantAddresses_index member).trans index.symm
    rw [Address.key, Address.key, same, address, length]
  · exact ⟨wantAddresses_index (mem_missing.mp comes).1, trivial⟩

theorem ownsRoute_iff {index : U32} {r : Route} :
    ownsRoute index r = true ↔ r.index = index ∧ r.protocol = rtprotNetd := by
  simp [ownsRoute]

theorem planRoutes_permitted {o : Observed} {d : Desired} {op : Op}
    (member : op ∈ planRoutes o d) : Permitted o d op := by
  rcases mem_planRoutes.mp member with ⟨r, gone, rfl⟩ | ⟨r, comes, rfl⟩
  · obtain ⟨stored, owned⟩ := mem_haveRoutes.mp (mem_stale.mp gone).1
    obtain ⟨index, stamp⟩ := ownsRoute_iff.mp owned
    exact ⟨index, stored, stamp⟩
  · obtain ⟨index, stamp⟩ := ownsRoute_iff.mp (wantRoutes_owned (mem_missing.mp comes).1)
    exact ⟨index, stamp⟩

theorem plan_permitted {o : Observed} {d : Desired} {op : Op} (member : op ∈ plan o d) :
    Permitted o d op := by
  obtain ⟨link, up | mtu | addresses | routes | down⟩ := mem_plan member
  · exact mem_planLinkUp up ▸ ⟨rfl, trivial⟩
  · obtain ⟨_, rfl⟩ := mem_planMtu mtu
    exact ⟨rfl, trivial⟩
  · exact planAddresses_permitted addresses
  · exact planRoutes_permitted routes
  · exact mem_planLinkDown down ▸ ⟨rfl, trivial⟩

/-! ## Order -/

/-- The order of operations within a plan. -/
structure Sequenced (ops : List Op) : Prop where
  linkUpFirst : ∀ before index after, ops = before ++ .linkUp index :: after → before = []
  linkDownLast : ∀ before index after, ops = before ++ .linkDown index :: after → after = []
  deletionsFirst : ∀ before a broadcast after, ops = before ++ .addAddress a broadcast :: after →
    ∀ gone, .delAddress gone ∉ after
  addressesFirst : ∀ before op after, ops = before ++ op :: after → op.onRoutes.isSome →
    ∀ later ∈ after, later.onAddresses = none

/-- The place of an operation in a plan. -/
def Op.phase : Op → ℕ
  | .linkUp _ => 0
  | .mtu _ _ => 1
  | .delAddress _ => 2
  | .addAddress _ _ => 3
  | .delRoute _ => 4
  | .addRoute _ => 5
  | .linkDown _ => 6

/-- Phases never go back, and only those of table changes hold more than one operation. -/
def Op.Precedes (first second : Op) : Prop :=
  first.phase < second.phase ∨ first.phase = second.phase ∧ 2 ≤ first.phase ∧ first.phase ≤ 5

theorem pairwise_precedes_append {first second : List Op} (boundary : ℕ)
    (left : first.Pairwise Op.Precedes) (right : second.Pairwise Op.Precedes)
    (below : ∀ op ∈ first, op.phase < boundary) (above : ∀ op ∈ second, boundary ≤ op.phase) :
    (first ++ second).Pairwise Op.Precedes := by
  refine List.pairwise_append.mpr ⟨left, right, fun op early later late => .inl ?_⟩
  exact (below op early).trans_le (above later late)

/-- The two halves of a table difference, deletions first. -/
theorem diff_precedes {α : Type*} {del add : α → Op} (gone come : List α) {n : ℕ} (low : 2 ≤ n)
    (high : n < 5) (deletes : ∀ a, (del a).phase = n) (adds : ∀ a, (add a).phase = n + 1) :
    (gone.map del ++ come.map add).Pairwise Op.Precedes := by
  apply pairwise_precedes_append (n + 1)
  · refine List.pairwise_map.mpr (List.pairwise_of_forall fun a b => .inr ?_)
    rw [deletes, deletes]
    omega
  · refine List.pairwise_map.mpr (List.pairwise_of_forall fun a b => .inr ?_)
    rw [adds, adds]
    omega
  · intro op member
    obtain ⟨a, _, rfl⟩ := List.mem_map.mp member
    rw [deletes]
    omega
  · intro op member
    obtain ⟨a, _, rfl⟩ := List.mem_map.mp member
    rw [adds]

theorem planAddresses_precedes (o : Observed) (d : Desired) :
    (planAddresses o d).Pairwise Op.Precedes := by
  rw [planAddresses_eq]
  exact diff_precedes _ _ (Nat.le_refl 2) (by decide) (fun _ => rfl) (fun _ => rfl)

theorem planRoutes_precedes (o : Observed) (d : Desired) :
    (planRoutes o d).Pairwise Op.Precedes := by
  rw [planRoutes_eq]
  exact diff_precedes _ _ (show 2 ≤ 4 by decide) (by decide) (fun _ => rfl) (fun _ => rfl)

theorem planAddresses_phase {o : Observed} {d : Desired} {op : Op} (member : op ∈ planAddresses o d) :
    2 ≤ op.phase ∧ op.phase < 4 := by
  rcases mem_planAddresses.mp member with ⟨_, _, rfl⟩ | ⟨_, _, rfl⟩ <;> simp [Op.phase]

theorem planRoutes_phase {o : Observed} {d : Desired} {op : Op} (member : op ∈ planRoutes o d) :
    4 ≤ op.phase ∧ op.phase < 6 := by
  rcases mem_planRoutes.mp member with ⟨_, _, rfl⟩ | ⟨_, _, rfl⟩ <;> simp [Op.phase]

theorem planMtu_phase {link : Link} {d : Desired} {op : Op} (member : op ∈ planMtu link d) :
    op.phase = 1 := by
  obtain ⟨_, rfl⟩ := mem_planMtu member
  rfl

theorem planLinkUp_phase {link : Link} {d : Desired} {op : Op} (member : op ∈ planLinkUp link d) :
    op.phase = 0 :=
  mem_planLinkUp member ▸ rfl

theorem planLinkDown_phase {link : Link} {d : Desired} {op : Op}
    (member : op ∈ planLinkDown link d) : op.phase = 6 :=
  mem_planLinkDown member ▸ rfl

theorem planLink_precedes (link : Link) (d : Desired) :
    (planLinkUp link d).Pairwise Op.Precedes ∧ (planMtu link d).Pairwise Op.Precedes ∧
      (planLinkDown link d).Pairwise Op.Precedes := by
  refine ⟨?_, ?_, ?_⟩
  · rw [planLinkUp]
    split_ifs
    · exact List.pairwise_singleton ..
    · exact .nil
  · rw [planMtu]
    split
    · split_ifs
      · exact List.pairwise_singleton ..
      · exact .nil
    · exact .nil
  · rw [planLinkDown]
    split_ifs
    · exact List.pairwise_singleton ..
    · exact .nil

theorem plan_precedes (o : Observed) (d : Desired) : (plan o d).Pairwise Op.Precedes := by
  cases found : o.links.lookup d.index with
  | none =>
    rw [plan_of_no_link found]
    exact .nil
  | some link =>
    obtain ⟨up, mtu, down⟩ := planLink_precedes link d
    have first := pairwise_precedes_append 1 up mtu
      (fun op member => by have := planLinkUp_phase member; omega)
      (fun op member => (planMtu_phase member).ge)
    have belowTwo : ∀ op ∈ planLinkUp link d ++ planMtu link d, op.phase < 2 := by
      intro op member
      rcases List.mem_append.mp member with member | member
      · have := planLinkUp_phase member
        omega
      · have := planMtu_phase member
        omega
    have second := pairwise_precedes_append 2 first (planAddresses_precedes o d) belowTwo
      (fun op member => (planAddresses_phase member).1)
    have belowFour : ∀ op ∈ planLinkUp link d ++ planMtu link d ++ planAddresses o d,
        op.phase < 4 := by
      intro op member
      rcases List.mem_append.mp member with member | member
      · have := belowTwo op member
        omega
      · exact (planAddresses_phase member).2
    have third := pairwise_precedes_append 4 second (planRoutes_precedes o d) belowFour
      (fun op member => (planRoutes_phase member).1)
    rw [plan_of_link found]
    refine pairwise_precedes_append 6 third down (fun op member => ?_)
      (fun op member => (planLinkDown_phase member).ge)
    rcases List.mem_append.mp member with member | member
    · have := belowFour op member
      omega
    · exact (planRoutes_phase member).2

theorem sequenced_of_precedes {ops : List Op} (ordered : ops.Pairwise Op.Precedes) :
    Sequenced ops := by
  have split {before after : List Op} {op : Op} (same : ops = before ++ op :: after) :
      (∀ early ∈ before, early.Precedes op) ∧ ∀ late ∈ after, op.Precedes late := by
    rw [same] at ordered
    obtain ⟨_, tail, cross⟩ := List.pairwise_append.mp ordered
    exact ⟨fun early member => cross early member op (List.mem_cons_self ..),
      (List.pairwise_cons.mp tail).1⟩
  constructor
  · intro before index after same
    apply List.eq_nil_iff_forall_not_mem.mpr
    intro op member
    have order := (split same).1 op member
    have phase : (Op.linkUp index).phase = 0 := rfl
    rw [Op.Precedes] at order
    omega
  · intro before index after same
    apply List.eq_nil_iff_forall_not_mem.mpr
    intro op member
    have order := (split same).2 op member
    have phase : (Op.linkDown index).phase = 6 := rfl
    have last : op.phase ≤ 6 := by cases op <;> simp [Op.phase]
    rw [Op.Precedes] at order
    omega
  · intro before a broadcast after same gone member
    have order := (split same).2 _ member
    simp [Op.Precedes, Op.phase] at order
  · intro before op after same route later member
    have order := (split same).2 later member
    cases later with
    | addAddress a broadcast => cases op <;> simp [Op.Precedes, Op.phase, Op.onRoutes] at order route
    | delAddress a => cases op <;> simp [Op.Precedes, Op.phase, Op.onRoutes] at order route
    | linkUp _ | linkDown _ | mtu _ _ | addRoute _ | delRoute _ => rfl

/-! ## Every point of an execution -/

/-- What a state has in common with the one a plan was made for. -/
structure Untouched (o : Observed) (d : Desired) (state : Observed) : Prop where
  desiredAddresses : ∀ a ∈ o.addresses, a.index = d.index → d.Names a.address a.prefixLength →
    ∃ entry ∈ state.addresses, entry.key = a.key
  foreignRoutes : state.routes.filter (fun r => r.protocol ≠ rtprotNetd) =
    o.routes.filter fun r => r.protocol ≠ rtprotNetd
  otherAddresses : state.addresses.filter (fun a => a.index ≠ d.index) =
    o.addresses.filter fun a => a.index ≠ d.index
  otherRoutes : state.routes.filter (fun r => r.index ≠ d.index) =
    o.routes.filter fun r => r.index ≠ d.index
  otherLinks : ∀ index ≠ d.index, state.links.lookup index = o.links.lookup index

theorem onAddresses_entry {o : Observed} {d : Desired} {op : Op} {change : Change Address}
    (permitted : Permitted o d op) (changes : op.onAddresses = some change) :
    change.entry.index = d.index ∧
      ∀ a, change = .drop a → ¬d.Names a.address a.prefixLength := by
  cases op with
  | addAddress a broadcast =>
    obtain rfl := Option.some.inj changes
    exact ⟨permitted.1, fun _ drop => nomatch drop⟩
  | delAddress a =>
    obtain rfl := Option.some.inj changes
    refine ⟨permitted.1, fun _ drop => ?_⟩
    obtain rfl := Change.drop.inj drop
    exact permitted.2.2
  | linkUp _ | linkDown _ | mtu _ _ | addRoute _ | delRoute _ => cases changes

theorem onRoutes_entry {o : Observed} {d : Desired} {op : Op} {change : Change Route}
    (permitted : Permitted o d op) (changes : op.onRoutes = some change) :
    change.entry.index = d.index ∧ change.entry.protocol = rtprotNetd := by
  cases op with
  | addRoute r =>
    obtain rfl := Option.some.inj changes
    exact permitted
  | delRoute r =>
    obtain rfl := Option.some.inj changes
    exact ⟨permitted.1, permitted.2.2⟩
  | linkUp _ | linkDown _ | mtu _ _ | addAddress _ _ | delAddress _ => cases changes

theorem onLink_of_ne {op : Op} {index : U32} (other : index ≠ op.index) (link : Link) :
    op.onLink index link = link := by
  cases op <;> first | rfl | exact if_neg other

/-- Carrying out permitted operations leaves the rest alone. -/
theorem foldl_perform_untouched {o : Observed} {d : Desired} {ops : List Op}
    (permitted : ∀ op ∈ ops, Permitted o d op) : Untouched o d (ops.foldl perform o) := by
  have addresses (change : Change Address) (member : change ∈ ops.filterMap Op.onAddresses) :
      change.entry.index = d.index ∧ ∀ a, change = .drop a → ¬d.Names a.address a.prefixLength := by
    obtain ⟨op, planned, changes⟩ := List.mem_filterMap.mp member
    exact onAddresses_entry (permitted op planned) changes
  have routes (change : Change Route) (member : change ∈ ops.filterMap Op.onRoutes) :
      change.entry.index = d.index ∧ change.entry.protocol = rtprotNetd := by
    obtain ⟨op, planned, changes⟩ := List.mem_filterMap.mp member
    exact onRoutes_entry (permitted op planned) changes
  constructor
  · intro a stored _ named
    rw [foldl_perform_addresses]
    refine key_mem_run (fun entry dropped same => ?_) ⟨a, stored, rfl⟩
    simp only [Address.key, Prod.mk.injEq] at same
    apply (addresses _ dropped).2 entry rfl
    rw [same.2.1, same.2.2]
    exact named
  · rw [foldl_perform_routes]
    refine filter_run (fun first second same => ?_) fun change member => ?_
    · rw [show first = second from same]
    · simp [(routes change member).2]
  · rw [foldl_perform_addresses]
    refine filter_run (fun first second same => ?_) fun change member => ?_
    · simp only [Address.key, Prod.mk.injEq] at same
      rw [same.1]
    · simp [(addresses change member).1]
  · rw [foldl_perform_routes]
    refine filter_run (fun first second same => ?_) fun change member => ?_
    · rw [show first = second from same]
    · simp [(routes change member).1]
  · intro index other
    rw [foldl_perform_link]
    have same (link : Link) : ops.foldl (Op.onLink index) link = link :=
      foldl_onLink_inert fun op member => onLink_of_ne ((permitted op member).1 ▸ other)
    simp only [same, Option.map_id']

/-- A plan asks only for what netd owns, in an order in which addresses go before they come and
routes come last; at every point of its execution, whatever the kernel refuses, desired addresses
are still there and everything else is as it was. -/
theorem touches_only_owned (o : Observed) (d : Desired) :
    (∀ op ∈ plan o d, Permitted o d op) ∧ Sequenced (plan o d) ∧
      ∀ (refuse : Observed → Op → Option IoError) (n : ℕ),
        Untouched o d (apply (tables refuse) o ((plan o d).take n)).1 := by
  refine ⟨fun op => plan_permitted, sequenced_of_precedes (plan_precedes o d), fun refuse n => ?_⟩
  obtain ⟨done, sub, carried⟩ := apply_sublist refuse o ((plan o d).take n)
  rw [carried]
  apply foldl_perform_untouched
  intro op member
  exact plan_permitted (List.take_subset _ _ (sub.subset member))

end Netd.Model.Reconcile
