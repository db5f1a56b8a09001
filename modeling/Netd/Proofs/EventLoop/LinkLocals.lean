import Netd.Proofs.EventLoop.Engines
import Netd.Proofs.Interface.Families
import Netd.Proofs.Ndp.Options
import Netd.Proofs.Reconcile.Ownership

/-! # IPv6 link-locals are the kernel's

A plan leaves observed IPv6 link-locals out of account, so it never removes one, but it adds whatever
is wanted and not observed. A link-local that is wanted is therefore added on every pass. No router can
make one wanted, since the decoder drops every prefix option of link-locals; an operator who writes one
into a profile can, and that is the only way.
-/

namespace Netd.Model.Reconcile

/-- The operation adds or removes the address. -/
def Op.Changes (op : Op) (a : Address) : Prop := op = .delAddress a ∨ ∃ broadcast, op = .addAddress a broadcast

/-- Plans leave link-locals alone, whatever is observed, exactly where none is wanted. -/
theorem plan_spares_iff (d : Desired) :
    (∀ o, ∀ op ∈ plan o d, ∀ a, op.Changes a → a.isLinkLocal6 = false) ↔
      ∀ a ∈ d.addresses6, isV6LinkLocal a.address = false := by
  constructor
  · intro spared a wanted
    by_contra kernels
    -- A link without any addresses: whatever is wanted is added.
    let o : Observed :=
      { links := SortedMap.empty.insert d.index ⟨d.index, "", none, true, true, false, 0, 0, .other⟩
        addresses := []
        routes := [] }
    have added : Op.addAddress (a.onLink d.index) d.broadcast ∈ planAddresses o d := by
      refine mem_planAddresses.mpr (.inr ⟨_, KeyedTable.mem_missing.mpr ⟨?_, ?_⟩, rfl⟩)
      · exact mem_wantAddresses.mpr (.inr ⟨a, wanted, rfl⟩)
      · rw [mem_haveAddresses]
        rintro ⟨_, none, -⟩
        contradiction
    have member : Op.addAddress (a.onLink d.index) d.broadcast ∈ plan o d := by
      rw [plan_of_link (SortedMap.lookup_insert_self _ _ _)]
      simp [added]
    exact kernels (spared o _ member _ (.inr ⟨_, rfl⟩))
  · intro free o op member a changes
    obtain rfl | ⟨broadcast, rfl⟩ := changes
    · obtain ⟨entry, -, rfl, kernels⟩ := (plan_permitted member).2.1
      exact kernels
    · obtain ⟨link, up | mtu | addresses | routes | down⟩ := mem_plan member
      · cases mem_planLinkUp up
      · obtain ⟨_, ⟨⟩⟩ := mem_planMtu mtu
      · obtain ⟨_, _, ⟨⟩⟩ | ⟨_, comes, ⟨⟩⟩ := mem_planAddresses.mp addresses
        obtain ⟨_, _, rfl⟩ | ⟨entry, wanted, rfl⟩ := mem_wantAddresses.mp (KeyedTable.mem_missing.mp comes).1
        · rfl
        · exact free entry wanted
      · obtain ⟨_, _, ⟨⟩⟩ | ⟨_, _, ⟨⟩⟩ := mem_planRoutes.mp routes
      · cases mem_planLinkDown down

end Netd.Model.Reconcile

namespace Netd.Model.Ndp.Engine

/-- The first eight octets say whether an address is a link-local. -/
theorem isV6LinkLocal_of_network {first second : Ipv6Addr} (same : network first = network second) :
    isV6LinkLocal first = isV6LinkLocal second := by
  have segment (a : Ipv6Addr) : a.extractLsb' 112 16 = (network a).extractLsb' 48 16 := by
    apply BitVec.eq_of_getLsbD_eq
    intro bit inside
    have low : 48 + bit < 64 := by omega
    simp [network, inside, low, ← Nat.add_assoc]
  rw [isV6LinkLocal, isV6LinkLocal, segment, segment, same]

/-- No stored prefix is one of link-locals. -/
def PrefixesFree (e : Engine) : Prop :=
  ∀ key p, e.prefixes.lookup key = some p → isV6LinkLocal (ofLex key).1 = false

section

variable {sha1 : Bytes → BitVec 160}

/-- What is stored was stored before or came in an option, and no option of link-locals is taken. -/
theorem next_prefixesFree {e : Engine} (free : e.PrefixesFree) (op : Op) :
    ((machine sha1).next e op).PrefixesFree := by
  intro key p stored
  obtain ⟨old, held⟩ | ⟨now, source, body, ra, -, decoded, info, member, -, rfl⟩ := next_stored op stored
  · exact free key old held
  · obtain ⟨option, -, read⟩ := RouterAdvert.decode_prefixes decoded member
    exact RouterAdvert.prefixInfo_spares read

theorem listed_free {e : Engine} {config : Config} (sound : e.Sound sha1 config) (free : e.PrefixesFree)
    {now : ℕ} {entry : DesiredAddress} (listed : entry ∈ e.addresses now) :
    isV6LinkLocal entry.address = false := by
  obtain ⟨key, p, stored, listed⟩ := listed_origin listed
  rw [isV6LinkLocal_of_network (network_of_listed (sound.prefixes key p stored) listed)]
  exact free key p stored

end

end Netd.Model.Ndp.Engine

namespace Netd.Model.Interface

open Reconcile (Desired DesiredV6 Op.Changes plan)

/-! ## What is wanted -/

/-- No IPv6 address of the profile's own is a link-local. -/
def StaticsFree (p : Profile) : Prop :=
  ∀ s ∈ p.address.statics, ∀ a, s.address = .v6 a → isV6LinkLocal a = false

theorem mem_statics6 {statics : List StaticAddress} {a : DesiredV6} :
    a ∈ statics6 statics ↔ ∃ s ∈ statics, s.address = .v6 a.address ∧ a = ⟨a.address, s.prefixLength, false, false⟩ := by
  rw [statics6, List.mem_filterMap]
  refine exists_congr fun s => and_congr_right fun _ => ?_
  obtain ⟨ip | ip, length⟩ := s
  · simp
  · constructor
    · rintro ⟨⟩
      exact ⟨rfl, rfl⟩
    · rintro ⟨address, same⟩
      rw [same, ← IpAddr.v6.inj address]

/-- The IPv6 addresses of a desired state are the profile's own and those the engine lists. -/
theorem desired_addresses6 {i : Interface} {now : ℕ} {d : Desired} (wanted : i.desired now = some d) :
    (d.addresses6 = [] ∧ i.profile = none) ∨ ∃ p, i.profile = some p ∧ i.outcome = .join p ∧
      d.addresses6 = statics6 p.address.statics ++ ((i.ndp.map fun e => e.addresses now).getD []).map slaacAddress := by
  cases outcome : i.outcome with
  | join p =>
    rw [desired_join outcome] at wanted
    split_ifs at wanted with loopback
    obtain rfl := Option.some.inj wanted
    refine .inr ⟨p, ?_, rfl, joined_addresses6 i p.address (i.routers now)⟩
    rw [Interface.profile, if_neg loopback, outcome]
    rfl
  | ignore =>
    rw [desired, outcome] at wanted
    split_ifs at wanted
  | down =>
    rw [desired, outcome] at wanted
    split_ifs at wanted with loopback
    obtain rfl := Option.some.inj wanted
    refine .inl ⟨rfl, ?_⟩
    rw [Interface.profile, if_neg loopback, outcome]
    rfl

/-! ## Whole lives -/

variable {sha1 : Bytes → BitVec 160}

/-- An engine that has formed no link-locals. -/
def EngineFree (sha1 : Bytes → BitVec 160) (e : Ndp.Engine) : Prop :=
  (∃ config, e.Sound sha1 config) ∧ e.PrefixesFree

theorem EngineFree.next {e : Ndp.Engine} (free : EngineFree sha1 e) (op : Ndp.Engine.Op) :
    EngineFree sha1 ((Ndp.Engine.machine sha1).next e op) := by
  obtain ⟨⟨config, sound⟩, free⟩ := free
  exact ⟨⟨config, Ndp.Engine.next_sound e op sound⟩, Ndp.Engine.next_prefixesFree free op⟩

theorem begun_free (config : Ndp.Config) (now : ℕ) : EngineFree sha1 ((Ndp.Engine.new config).start now).1 := by
  have fresh : EngineFree sha1 (Ndp.Engine.new config) := by
    refine ⟨⟨config, Ndp.Engine.new_sound config⟩, ?_⟩
    intro key p stored
    have absent : (Ndp.Engine.new config).prefixes.lookup key = none := SortedMap.lookup_empty key
    rw [absent] at stored
    contradiction
  exact fresh.next (.start now)

/-- The engine of an interface never has a link-local to ask for, whatever routers advertise. -/
theorem reached_free (steps : List Step) : ∀ e ∈ engineAt ((slots sha1).run none steps), EngineFree sha1 e := by
  have preserved (slot : Option Interface) (step : Step) (free : ∀ e ∈ engineAt slot, EngineFree sha1 e) :
      ∀ e ∈ engineAt ((slots sha1).next slot step), EngineFree sha1 e := by
    refine next_engine begun_free (fun e now free => free.next (.tick now)) ?_ free
    intro e now message _ _ _ _ free
    exact free.next (.receive now message.1 message.2.2)
  have empty : ∀ e ∈ engineAt none, EngineFree sha1 e := fun _ none => nomatch none
  exact (slots sha1).run_invariant preserved empty steps

theorem engine_free {steps : List Step} {i : Interface} (there : i ∈ (slots sha1).run none steps) :
    ∀ e ∈ i.ndp, EngineFree sha1 e := by
  have free := @reached_free sha1 steps
  rw [Option.mem_def.mp there] at free
  exact free

/-- The link-locals an interface asks for are the ones its profile names. -/
theorem desired_free_iff {i : Interface} {now : ℕ} {d : Desired} (wanted : i.desired now = some d)
    (engine : ∀ e ∈ i.ndp, EngineFree sha1 e) :
    (∀ a ∈ d.addresses6, isV6LinkLocal a.address = false) ↔ ∀ p ∈ i.profile, StaticsFree p := by
  obtain ⟨none, unjoined⟩ | ⟨p, profile, -, addresses⟩ := desired_addresses6 wanted
  · rw [none, unjoined]
    constructor <;> exact fun _ _ member => nomatch member
  · have formed : ∀ a ∈ ((i.ndp.map fun e => e.addresses now).getD []).map slaacAddress,
        isV6LinkLocal a.address = false := by
      rw [List.forall_mem_map]
      intro entry listed
      cases held : i.ndp with
      | none =>
        rw [held] at listed
        contradiction
      | some e =>
        rw [held] at listed
        obtain ⟨⟨config, sound⟩, prefixes⟩ := engine e held
        exact Ndp.Engine.listed_free sound prefixes listed
    rw [addresses, List.forall_mem_append, and_iff_left formed]
    constructor
    · intro free q joined s named a own
      obtain rfl := Option.some.inj (profile.symm.trans joined)
      have static : (⟨a, s.prefixLength, false, false⟩ : DesiredV6) ∈ statics6 p.address.statics :=
        mem_statics6.mpr ⟨s, named, own, rfl⟩
      exact free ⟨a, s.prefixLength, false, false⟩ static
    · intro free a member
      obtain ⟨s, named, own, -⟩ := mem_statics6.mp member
      exact free p profile s named a.address own

/-- In every state that is reached, plans leave link-locals alone exactly where the profile the interface
is joined to names none. -/
theorem link_locals_spared (steps : List Step) {i : Interface} (there : i ∈ (slots sha1).run none steps) (now : ℕ) :
    (∀ d ∈ i.desired now, ∀ o, ∀ op ∈ plan o d, ∀ a, op.Changes a → a.isLinkLocal6 = false) ↔
      ∀ p ∈ i.profile, StaticsFree p := by
  have engine : ∀ e ∈ i.ndp, EngineFree sha1 e := engine_free there
  cases wanted : i.desired now with
  | none =>
    have unjoined : i.profile = none := by
      by_contra joined
      obtain ⟨p, joined⟩ := Option.ne_none_iff_exists'.mp joined
      rw [desired_of_profile joined now] at wanted
      contradiction
    rw [unjoined]
    constructor <;> exact fun _ _ member => nomatch member
  | some d =>
    rw [← desired_free_iff wanted engine, ← Reconcile.plan_spares_iff d]
    constructor
    · intro spared
      exact spared d rfl
    · rintro spared _ ⟨⟩
      exact spared

/-- An advertisement of 2001:db8::/64 from a router. -/
def plainAdvert : Ipv6Addr × U8 × Bytes :=
  (0xfe800000000000000000000000000001#128, 255,
    [134, 0, 0, 0, 64, 0, 0x07, 0x08, 0, 0, 0, 0, 0, 0, 0, 0] ++
      Ndp.Engine.prefixOption 0x20010db8000000000000000000000000)

/-- The interface then asks for an address of that prefix. -/
theorem plain_life_listed :
    ∃ i ∈ (slots fun _ => 0).run none [.sight sighting, .event (.advert 0 plainAdvert)],
      ∃ d ∈ i.desired 0, d.addresses6 ≠ [] := by
  have listed : (((slots fun _ => 0).run none [.sight sighting, .event (.advert 0 plainAdvert)]).bind
      fun i => i.desired 0).any fun d => decide (d.addresses6 ≠ []) := by decide +kernel
  obtain ⟨d, found, listed⟩ := (Option.any_eq_true _ _).mp listed
  obtain ⟨i, there, wanted⟩ := Option.bind_eq_some_iff.mp found
  exact ⟨i, there, d, wanted, of_decide_eq_true listed⟩

/-- Its profile names no address of its own. -/
theorem plain_life_static {i : Interface}
    (there : i ∈ (slots fun _ => 0).run none [.sight sighting, .event (.advert 0 plainAdvert)]) :
    ∀ p ∈ i.profile, p.address.statics = [] := by
  have joined : ((slots fun _ => 0).run none [.sight sighting, .event (.advert 0 plainAdvert)]).all fun i =>
      i.profile.all fun p => p.address.statics.isEmpty := by decide +kernel
  rw [Option.mem_def.mp there] at joined
  intro p profile
  change i.profile.all _ = true at joined
  rw [Option.mem_def.mp profile] at joined
  exact List.isEmpty_iff.mp joined

theorem plain_life_spared :
    ∃ i ∈ (slots fun _ => 0).run none [.sight sighting, .event (.advert 0 plainAdvert)], ∃ d ∈ i.desired 0,
      d.addresses6 ≠ [] ∧ ∀ o, ∀ op ∈ plan o d, ∀ a, op.Changes a → a.isLinkLocal6 = false := by
  obtain ⟨i, there, d, wanted, listed⟩ := plain_life_listed
  have free : ∀ p ∈ i.profile, StaticsFree p := by
    intro p profile s named
    rw [plain_life_static there p profile] at named
    contradiction
  exact ⟨i, there, d, wanted, listed, (link_locals_spared _ there 0).mpr free d wanted⟩

/-- A profile with an IPv6 link-local of its own. -/
def linkLocalStatic : Profile :=
  siteProfile { statics := [⟨.v6 0xfe800000000000000000000000000005#128, 64⟩] }

/-- A link that carries that address already. -/
def carrying : Observed where
  links := SortedMap.empty.insert 2 ⟨2, "eth0", some 0x020000000001#48, true, true, false, 1500, 1, .ether⟩
  addresses := [.new 2 (.v6 0xfe800000000000000000000000000005#128) 64]
  routes := []

/-- It is added although it is there, and again on the next pass. -/
theorem link_local_static_added :
    ∃ profiles, resolve (site [("Address.Static", .str "fe80::5/64")]) = .ok profiles ∧
      profiles.lookup "site" = some linkLocalStatic ∧
      ((((slots fun _ => 0).run none [.sight { sighting with outcome := .join linkLocalStatic }]).bind
          fun i => i.desired 0).map fun d =>
        (plan carrying d,
          plan (Reconcile.apply (Reconcile.tables fun _ _ => none) carrying (plan carrying d)).1 d)) =
        some ([.addAddress (.new 2 (.v6 0xfe800000000000000000000000000005#128) 64) none],
          [.addAddress (.new 2 (.v6 0xfe800000000000000000000000000005#128) 64) none]) := by
  obtain ⟨profiles, resolved, known⟩ :=
    @resolve_site [("Address.Static", .str "fe80::5/64")] linkLocalStatic (by decide +kernel)
  exact ⟨profiles, resolved, known, by decide +kernel⟩

end Netd.Model.Interface
