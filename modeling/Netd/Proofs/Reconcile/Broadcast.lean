import Netd.Model.Netlink
import Netd.Proofs.Reconcile.Execution

/-! # Broadcast addresses stay as they were added

Addresses are compared without their broadcast, which is sent with an addition and never again. So the
IPv4 addresses of an interface are those of the latest desired state, whatever came before, and each
carries the broadcast of the desired state at which it was last added: the first since which it has
been wanted all along.
-/

namespace Netd.Model.Netlink

open KeyedTable Reconcile

/-! ## Messages and entries -/

/-- The broadcast address that goes out with an addition. -/
def sent (a : Address) (d : Desired) : Option Ipv4Addr := (addressMessage a d.broadcast).broadcast

theorem key_entry (a : Address) (broadcast : Option Ipv4Addr) : (addressMessage a broadcast).entry.key = a.key := by
  obtain ⟨index, address, length, deprecated, noPrefixRoute, tentative⟩ := a
  cases address <;> rfl

/-- An IPv4 address of an interface, as netd adds it. -/
def PlainV4 (index : U32) (a : Address) : Prop := ∃ ip length, a = Address.new index (.v4 ip) length

theorem entry_of_plain {index : U32} {a : Address} (plain : PlainV4 index a) (d : Desired) :
    (addressMessage a d.broadcast).entry = ⟨a, sent a d⟩ := by
  obtain ⟨ip, length, rfl⟩ := plain
  have flags : (addressMessage (Address.new index (.v4 ip) length) d.broadcast).entry.address =
      Address.new index (.v4 ip) length := by
    by_cases short : length < 31#8 <;>
      simp [addressMessage, AddressMessage.entry, AddressMessage.ip, Address.new, short]
  rw [← flags]
  rfl

theorem eq_of_key {index : U32} {a : Address} (plain : PlainV4 index a) {d : Desired} (same : d.index = index)
    {w : Address} (wanted : w ∈ wantAddresses d) (key : w.key = a.key) : w = a := by
  obtain ⟨ip, length, rfl⟩ := plain
  obtain ⟨⟨other, otherLength⟩, -, rfl⟩ | ⟨other, -, rfl⟩ := mem_wantAddresses.mp wanted
  · simp only [Address.key, Address.new, Prod.mk.injEq, IpAddr.v4.injEq] at key
    obtain ⟨-, rfl, rfl⟩ := key
    rw [same]
  · simp [Address.key, Address.new, DesiredV6.onLink] at key

/-! ## One reconciliation -/

def onEntries : Op → Option (Change Entry)
  | .addAddress a broadcast => some (.put (addressMessage a broadcast).entry)
  | .delAddress a => some (.drop (addressMessage a none).entry)
  | _ => none

theorem foldl_perform_entries (k : Kernel) (ops : List Op) :
    (ops.foldl Kernel.perform k).entries = run Entry.key k.entries (ops.filterMap onEntries) := by
  induction ops generalizing k with
  | nil => rfl
  | cons op rest ih => cases op <;> exact ih _

theorem perform_links (k : Kernel) (op : Op) (index : U32) :
    ((k.perform op).links.lookup index).isSome = (k.links.lookup index).isSome := by
  have observed : k.observed.links = k.links := rfl
  have kept := congrArg Option.isSome (perform_link k.observed op index)
  rw [Option.isSome_map, observed] at kept
  cases op <;> exact kept

theorem reconcile_links (k : Kernel) (d : Desired) (index : U32) :
    ((k.reconcile d).links.lookup index).isSome = (k.links.lookup index).isSome := by
  rw [Kernel.reconcile]
  generalize plan k.observed d = ops
  induction ops generalizing k with
  | nil => rfl
  | cons op rest ih => rw [List.foldl_cons, ih, perform_links]

/-- What a plan asks of the entries. -/
theorem mem_changes {k : Kernel} {d : Desired} (known : (k.links.lookup d.index).isSome = true)
    {change : Change Entry} :
    change ∈ (plan k.observed d).filterMap onEntries ↔
      (∃ a ∈ stale Address.key (haveAddresses k.observed d.index) (wantAddresses d),
        .drop (addressMessage a none).entry = change) ∨
      ∃ a ∈ missing (haveAddresses k.observed d.index) (wantAddresses d),
        .put (addressMessage a d.broadcast).entry = change := by
  obtain ⟨link, found⟩ := Option.isSome_iff_exists.mp known
  rw [plan_of_link (o := k.observed) found, List.mem_filterMap]
  constructor
  · rintro ⟨op, member, asks⟩
    simp only [List.mem_append, or_assoc] at member
    obtain up | mtu | addresses | routes | down := member
    · rw [mem_planLinkUp up] at asks
      contradiction
    · obtain ⟨mtu, rfl⟩ := mem_planMtu mtu
      contradiction
    · obtain ⟨a, gone, rfl⟩ | ⟨a, comes, rfl⟩ := mem_planAddresses.mp addresses
      · exact .inl ⟨a, gone, Option.some.inj asks⟩
      · exact .inr ⟨a, comes, Option.some.inj asks⟩
    · obtain ⟨r, -, rfl⟩ | ⟨r, -, rfl⟩ := mem_planRoutes.mp routes
      · contradiction
      · contradiction
    · rw [mem_planLinkDown down] at asks
      contradiction
  · rintro (⟨a, gone, rfl⟩ | ⟨a, comes, rfl⟩)
    · refine ⟨.delAddress a, ?_, rfl⟩
      simp only [List.mem_append]
      exact .inl (.inl (.inr (mem_planAddresses.mpr (.inl ⟨a, gone, rfl⟩))))
    · refine ⟨.addAddress a d.broadcast, ?_, rfl⟩
      simp only [List.mem_append]
      exact .inl (.inl (.inr (mem_planAddresses.mpr (.inr ⟨a, comes, rfl⟩))))

/-- The IPv4 entries of an interface are as netd adds them. -/
def Plain (index : U32) (k : Kernel) : Prop :=
  ∀ e ∈ k.entries, e.address.index = index → ∀ ip, e.address.address = .v4 ip → PlainV4 index e.address

theorem mem_have {index : U32} {k : Kernel} (plain : Plain index k) {a : Address} (own : PlainV4 index a) :
    a ∈ haveAddresses k.observed index ↔ ∃ e ∈ k.entries, e.address = a := by
  rw [mem_haveAddresses]
  constructor
  · rintro ⟨b, there, owned, settled⟩
    obtain ⟨e, member, rfl⟩ := List.mem_map.mp there
    refine ⟨e, member, ?_⟩
    obtain ⟨ip, length, rfl⟩ := own
    have index : e.address.index = index := congrArg Address.index settled
    have address : e.address.address = .v4 ip := congrArg Address.address settled
    obtain ⟨other, otherLength, same⟩ := plain e member index ip address
    rw [same] at settled ⊢
    exact settled
  · rintro ⟨e, member, rfl⟩
    refine ⟨e.address, List.mem_map.mpr ⟨e, member, rfl⟩, ?_, ?_⟩
    · obtain ⟨ip, length, same⟩ := own
      rw [same]
      simp [ownsAddress, Address.new, Address.isLinkLocal6]
    · obtain ⟨ip, length, same⟩ := own
      rw [same]
      rfl

/-- What one reconciliation leaves: what is wanted, with the broadcast it had, or the one it is added with. -/
theorem mem_reconcile {index : U32} {k : Kernel} (plain : Plain index k) {d : Desired} (same : d.index = index)
    (known : (k.links.lookup index).isSome = true) {e : Entry} (own : PlainV4 index e.address) :
    e ∈ (k.reconcile d).entries ↔
      e.address ∈ wantAddresses d ∧
        (e ∈ k.entries ∨ ((∀ x ∈ k.entries, x.address ≠ e.address) ∧ e.broadcast = sent e.address d)) := by
  subst same
  have dropped {a : Address} (gone : a ∈ stale Address.key (haveAddresses k.observed d.index) (wantAddresses d))
      (key : a.key = e.address.key) : e.address ∉ wantAddresses d :=
    fun wanted => (mem_stale.mp gone).2 e.address wanted key.symm
  have added {a : Address} (comes : a ∈ missing (haveAddresses k.observed d.index) (wantAddresses d))
      (key : a.key = e.address.key) : e.address ∈ missing (haveAddresses k.observed d.index) (wantAddresses d) :=
    eq_of_key own rfl (mem_missing.mp comes).1 key ▸ comes
  have absent (comes : e.address ∈ missing (haveAddresses k.observed d.index) (wantAddresses d)) :
      ∀ x ∈ k.entries, x.address ≠ e.address :=
    fun x member same => (mem_missing.mp comes).2 ((mem_have plain own).mpr ⟨x, member, same⟩)
  have agree : ∀ change ∈ (plan k.observed d).filterMap onEntries, Entry.key change.entry = Entry.key e →
      (change = .put e ↔ e.address ∈ wantAddresses d ∧ e.broadcast = sent e.address d) := by
    intro change planned key
    obtain ⟨a, gone, rfl⟩ | ⟨a, comes, rfl⟩ := (mem_changes known).mp planned
    · have unwanted := dropped gone ((key_entry a none).symm.trans key)
      exact ⟨nofun, fun wanted => absurd wanted.1 unwanted⟩
    · have mine := eq_of_key own rfl (mem_missing.mp comes).1 ((key_entry a d.broadcast).symm.trans key)
      rw [mine] at comes ⊢
      rw [entry_of_plain own d]
      constructor
      · intro put
        have is := Change.put.inj put
        exact ⟨(mem_missing.mp comes).1, (congrArg Entry.broadcast is).symm⟩
      · rintro ⟨-, broadcast⟩
        rw [← broadcast]
  rw [Kernel.reconcile, foldl_perform_entries, mem_run_agree agree]
  constructor
  · rintro (⟨⟨change, planned, key⟩, wanted, broadcast⟩ | ⟨untouched, stays⟩)
    · refine ⟨wanted, .inr ⟨?_, broadcast⟩⟩
      obtain ⟨a, gone, rfl⟩ | ⟨a, comes, rfl⟩ := (mem_changes known).mp planned
      · exact absurd wanted (dropped gone ((key_entry a none).symm.trans key))
      · exact absent (added comes ((key_entry a d.broadcast).symm.trans key))
    · refine ⟨?_, .inl stays⟩
      by_contra unwanted
      have present := (mem_have plain own).mpr ⟨e, stays, rfl⟩
      have gone : e.address ∈ stale Address.key (haveAddresses k.observed d.index) (wantAddresses d) := by
        refine mem_stale.mpr ⟨present, fun w wanted key => unwanted ?_⟩
        exact eq_of_key own rfl wanted key ▸ wanted
      exact untouched _ ((mem_changes known).mpr (.inl ⟨e.address, gone, rfl⟩)) (key_entry e.address none)
  · rintro ⟨wanted, stays | ⟨new, broadcast⟩⟩
    · refine .inr ⟨fun change planned key => ?_, stays⟩
      obtain ⟨a, gone, rfl⟩ | ⟨a, comes, rfl⟩ := (mem_changes known).mp planned
      · exact dropped gone ((key_entry a none).symm.trans key) wanted
      · exact absent (added comes ((key_entry a d.broadcast).symm.trans key)) e stays rfl
    · have comes : e.address ∈ missing (haveAddresses k.observed d.index) (wantAddresses d) := by
        refine mem_missing.mpr ⟨wanted, fun present => ?_⟩
        obtain ⟨x, member, same⟩ := (mem_have plain own).mp present
        exact new x member same
      exact .inl ⟨⟨_, (mem_changes known).mpr (.inr ⟨e.address, comes, rfl⟩), key_entry e.address d.broadcast⟩,
        wanted, broadcast⟩

theorem reconcile_plain {index : U32} {k : Kernel} (plain : Plain index k) {d : Desired} (same : d.index = index)
    (known : (k.links.lookup index).isSome = true) : Plain index (k.reconcile d) := by
  subst same
  -- Whatever is put is wanted, and the wanted IPv4 addresses are plain.
  have put {e : Entry} (new : .put e ∈ (plan k.observed d).filterMap onEntries) {ip : Ipv4Addr}
      (v4 : e.address.address = .v4 ip) : PlainV4 d.index e.address := by
    obtain ⟨a, -, none⟩ | ⟨a, comes, same⟩ := (mem_changes known).mp new
    · contradiction
    · obtain rfl := Change.put.inj same
      obtain ⟨⟨address, length⟩, -, rfl⟩ | ⟨other, -, rfl⟩ := mem_wantAddresses.mp (mem_missing.mp comes).1
      · rw [entry_of_plain ⟨address, length, rfl⟩ d]
        exact ⟨address, length, rfl⟩
      · have six : ((addressMessage (other.onLink d.index) d.broadcast).entry).address.address = .v6 other.address :=
          congrArg (fun key => key.2.1) (key_entry (other.onLink d.index) d.broadcast)
        rw [six] at v4
        contradiction
  have kept (changes : List (Change Entry)) (table : List Entry) {e : Entry} (there : e ∈ run Entry.key table changes) :
      .put e ∈ changes ∨ e ∈ table := by
    induction changes generalizing table with
    | nil => exact .inr there
    | cons change rest ih =>
      obtain later | early := ih _ there
      · exact .inl (List.mem_cons_of_mem _ later)
      · obtain rfl | ⟨old, -⟩ := mem_exec.mp early
        · exact .inl List.mem_cons_self
        · exact .inr old
  intro e there index ip v4
  rw [Kernel.reconcile, foldl_perform_entries] at there
  obtain new | old := kept _ _ there
  · exact put new v4
  · exact plain e old index ip v4

/-! ## One desired state after another -/

/-- The desired state since which an address has been wanted all along. -/
def since (a : Address) (desireds : List Desired) : Option Desired :=
  desireds.foldl (fun held d => if a ∈ wantAddresses d then held.or (some d) else none) none

/-- Every IPv4 entry carries the broadcast of the desired state that its address is held since. -/
def Carries (index : U32) (held : Address → Option Desired) (k : Kernel) : Prop :=
  ∀ e : Entry, PlainV4 index e.address →
    (e ∈ k.entries ↔ ∃ d, held e.address = some d ∧ e.broadcast = sent e.address d)

theorem reconcile_carries {index : U32} {held : Address → Option Desired} {k : Kernel} (plain : Plain index k)
    {d : Desired} (same : d.index = index) (known : (k.links.lookup index).isSome = true)
    (carries : Carries index held k) :
    Carries index (fun a => if a ∈ wantAddresses d then (held a).or (some d) else none) (k.reconcile d) := by
  intro e own
  rw [mem_reconcile plain same known own]
  by_cases wanted : e.address ∈ wantAddresses d
  · simp only [wanted, if_true, true_and]
    cases before : held e.address with
    | some first =>
      -- Held already: it is there with the broadcast it was added with.
      have there : (⟨e.address, sent e.address first⟩ : Entry) ∈ k.entries :=
        (carries ⟨e.address, sent e.address first⟩ own).mpr ⟨first, before, rfl⟩
      constructor
      · rintro (stays | ⟨absent, -⟩)
        · obtain ⟨other, found, broadcast⟩ := (carries e own).mp stays
          exact ⟨other, by rw [← before, found]; rfl, broadcast⟩
        · exact (absent _ there rfl).elim
      · rintro ⟨other, found, broadcast⟩
        obtain rfl : first = other := Option.some.inj found
        exact .inl ((carries e own).mpr ⟨first, before, broadcast⟩)
    | none =>
      have absent : ∀ x ∈ k.entries, x.address ≠ e.address := by
        intro x member same
        obtain ⟨other, found, -⟩ := (carries x (same ▸ own)).mp member
        rw [same, before] at found
        contradiction
      constructor
      · rintro (stays | ⟨-, broadcast⟩)
        · exact absurd rfl (absent e stays)
        · exact ⟨d, rfl, broadcast⟩
      · rintro ⟨other, found, broadcast⟩
        obtain rfl : d = other := Option.some.inj found
        exact .inr ⟨absent, broadcast⟩
  · simp [wanted]

/-- An interface that is there and has no addresses. -/
structure Bare (index : U32) (k : Kernel) : Prop where
  known : (k.links.lookup index).isSome = true
  none : ∀ e ∈ k.entries, e.address.index ≠ index

theorem history_carries {index : U32} {k : Kernel} (bare : Bare index k) {desireds : List Desired}
    (same : ∀ d ∈ desireds, d.index = index) :
    Plain index (k.history desireds) ∧ Carries index (fun a => since a desireds) (k.history desireds) := by
  have run (desireds : List Desired) (same : ∀ d ∈ desireds, d.index = index) (k : Kernel)
      (held : Address → Option Desired) (plain : Plain index k) (known : (k.links.lookup index).isSome = true)
      (carries : Carries index held k) :
      Plain index (k.history desireds) ∧ Carries index (fun a => desireds.foldl (fun held d =>
        if a ∈ wantAddresses d then held.or (some d) else none) (held a)) (k.history desireds) := by
    induction desireds generalizing k held with
    | nil => exact ⟨plain, carries⟩
    | cons d rest ih =>
      obtain ⟨first, later⟩ := List.forall_mem_cons.mp same
      refine ih later _ _ (reconcile_plain plain first known) ?_ (reconcile_carries plain first known carries)
      rw [reconcile_links, known]
  refine run desireds same k (fun _ => none) (fun e member here => absurd here (bare.none e member)) bare.known ?_
  intro e own
  obtain ⟨ip, length, address⟩ := own
  constructor
  · intro member
    exact absurd (congrArg Address.index address) (bare.none e member)
  · rintro ⟨_, found, -⟩
    contradiction

/-- What is held at the end is what was wanted last. -/
theorem since_isSome (a : Address) (desireds : List Desired) (last : Desired) :
    (∃ d, since a (desireds ++ [last]) = some d) ↔ a ∈ wantAddresses last := by
  rw [since, List.foldl_append, List.foldl_cons, List.foldl_nil]
  split_ifs with wanted
  · cases desireds.foldl (fun held d => if a ∈ wantAddresses d then held.or (some d) else none) none <;>
      simp [wanted]
  · simp [wanted]

/-- An IPv4 address of an interface. -/
def OnV4 (index : U32) (a : Address) : Prop := a.index = index ∧ ∃ ip, a.address = .v4 ip

theorem plain_of_wanted {index : U32} {a : Address} (v4 : OnV4 index a) {d : Desired} (same : d.index = index)
    (wanted : a ∈ wantAddresses d) : PlainV4 index a := by
  obtain ⟨-, ip, address⟩ := v4
  subst same
  obtain ⟨⟨other, length⟩, -, rfl⟩ | ⟨other, -, rfl⟩ := mem_wantAddresses.mp wanted
  · exact ⟨other, length, rfl⟩
  · cases address

/-- The IPv4 entries after a history: one for each address held, with the broadcast it was added with. -/
theorem mem_history {index : U32} {k : Kernel} (bare : Bare index k) {desireds : List Desired} {last : Desired}
    (same : ∀ d ∈ desireds ++ [last], d.index = index) {e : Entry} (v4 : OnV4 index e.address) :
    e ∈ (k.history (desireds ++ [last])).entries ↔
      ∃ d, since e.address (desireds ++ [last]) = some d ∧ e.broadcast = sent e.address d := by
  obtain ⟨plain, carries⟩ := history_carries bare same
  constructor
  · intro member
    obtain ⟨index, ip, address⟩ := v4
    exact (carries e (plain e member index ip address)).mp member
  · rintro ⟨d, held, broadcast⟩
    have wanted := (since_isSome e.address desireds last).mp ⟨d, held⟩
    have ours := same last (List.mem_append_right _ (List.mem_singleton_self last))
    exact (carries e (plain_of_wanted v4 ours wanted)).mpr ⟨d, held, broadcast⟩

/-- After any history the interface has the IPv4 addresses that were wanted last. -/
theorem history_addresses {index : U32} {k : Kernel} (bare : Bare index k) {desireds : List Desired} {last : Desired}
    (same : ∀ d ∈ desireds ++ [last], d.index = index) {a : Address} (v4 : OnV4 index a) :
    (∃ e ∈ (k.history (desireds ++ [last])).entries, e.address = a) ↔ a ∈ wantAddresses last := by
  rw [← since_isSome a desireds last]
  constructor
  · rintro ⟨e, member, rfl⟩
    obtain ⟨d, held, -⟩ := (mem_history bare same v4).mp member
    exact ⟨d, held⟩
  · rintro ⟨d, held⟩
    exact ⟨⟨a, sent a d⟩, (mem_history bare same v4).mpr ⟨d, held, rfl⟩, rfl⟩

/-- Histories that end in the same desired state leave the same IPv4 addresses; the broadcast of each is the
one of the desired state since which it has been wanted all along. -/
theorem addresses_of_latest {index : U32} {k other : Kernel} (bare : Bare index k) (otherBare : Bare index other)
    {first second : List Desired} {last : Desired} (same : ∀ d ∈ first ++ [last], d.index = index)
    (otherSame : ∀ d ∈ second ++ [last], d.index = index) :
    (∀ a, OnV4 index a →
      ((∃ e ∈ (k.history (first ++ [last])).entries, e.address = a) ↔
        ∃ e ∈ (other.history (second ++ [last])).entries, e.address = a)) ∧
      ∀ e : Entry, OnV4 index e.address →
        (e ∈ (k.history (first ++ [last])).entries ↔
          ∃ d, since e.address (first ++ [last]) = some d ∧ e.broadcast = sent e.address d) := by
  refine ⟨fun a v4 => ?_, fun e v4 => mem_history bare same v4⟩
  rw [history_addresses bare same v4, history_addresses otherBare otherSame v4]

/-- One link without addresses. -/
def oneLink : Kernel :=
  ⟨SortedMap.empty.insert 1 ⟨1, "e", none, true, true, false, 1500, 1, .ether⟩, [], []⟩

/-- A static address alone. -/
def staticOnly : Desired := { index := 1, up := true, addresses := [(0x0a000005, 24)] }

/-- The same with a lease that gave a broadcast address. -/
def withLease : Desired :=
  { index := 1, up := true, addresses := [(0x0a000005, 24), (0x0a00004d, 24)], broadcast := some 0x0a00007f }

theorem oneLink_bare : Bare 1 oneLink := ⟨by decide +kernel, List.forall_mem_nil _⟩

theorem static_before_lease :
    (∃ e ∈ (oneLink.history ([staticOnly] ++ [withLease])).entries, e.address = Address.new 1 (.v4 0x0a000005) 24) ∧
      (⟨Address.new 1 (.v4 0x0a000005) 24, some 0x0a0000ff⟩ : Entry) ∈
        (oneLink.history ([staticOnly] ++ [withLease])).entries := by
  have same : ∀ d ∈ [staticOnly] ++ [withLease], d.index = 1 := by decide +kernel
  have alone : ∀ d ∈ [] ++ [withLease], d.index = 1 := by decide +kernel
  obtain ⟨addresses, entries⟩ := addresses_of_latest oneLink_bare oneLink_bare same alone
  have v4 : OnV4 1 (Address.new 1 (.v4 0x0a000005) 24) := ⟨rfl, _, rfl⟩
  refine ⟨(addresses _ v4).mpr ⟨⟨Address.new 1 (.v4 0x0a000005) 24, some 0x0a00007f⟩, ?_, rfl⟩, ?_⟩
  · decide +kernel
  · exact (entries ⟨Address.new 1 (.v4 0x0a000005) 24, some 0x0a0000ff⟩ v4).mpr
      ⟨staticOnly, by decide +kernel, by decide +kernel⟩

/-- The static address has its subnet's broadcast if it was there before the lease, and the lease's if not. -/
theorem broadcast_of_history :
    Bare 1 oneLink ∧ (⟨Address.new 1 (.v4 0x0a000005) 24, some 0x0a0000ff⟩ : Entry) ∈
        (oneLink.history [staticOnly, withLease]).entries ∧
      (⟨Address.new 1 (.v4 0x0a000005) 24, some 0x0a0000ff⟩ : Entry) ∉ (oneLink.history [withLease]).entries := by
  exact ⟨oneLink_bare, by decide +kernel, by decide +kernel⟩

end Netd.Model.Netlink
