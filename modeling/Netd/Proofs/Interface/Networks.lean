import Netd.Math.Sorting
import Netd.Model.Networks
import Netd.Proofs.EventLoop.Lifecycle
import Netd.Proofs.Ndp.Prefixes
import Netd.Proofs.Ndp.Temporaries

/-! # What identifies a network

The prefixes of an identity are recovered from addresses by masking them. Every listed address is of a
stored prefix, so what comes out are the networks of the prefixes that are valid and preferred, in order;
temporary addresses and the numbers they are drawn from leave no trace. An unstable identity would have
the interface judged again and its lease dropped.
-/

namespace Netd.Model

namespace Networks

/-! ## Masks -/

section Masked

variable {w : ℕ}

theorem getMsbD_masked (address : BitVec w) (length : U8) (bit : ℕ) :
    (masked address length).getMsbD bit = (decide (bit < length.toNat) && address.getMsbD bit) := by
  unfold masked
  dsimp only
  split
  · next zero =>
    have none : address &&& 0 = 0#w := BitVec.and_zero
    rw [none, zero, BitVec.getMsbD_zero]
    rfl
  · rw [BitVec.getMsbD_and, BitVec.getMsbD_shiftLeft, BitVec.getMsbD_allOnes, Bool.and_comm]
    by_cases inside : bit < w
    · congr 1
      apply decide_eq_decide.mpr
      omega
    · rw [BitVec.getMsbD_of_ge _ _ (not_lt.mp inside), Bool.and_false, Bool.and_false]

/-- Two addresses have the same network exactly if they agree on the bits of the prefix. -/
theorem masked_eq_iff {address other : BitVec w} {length : U8} : masked address length = masked other length ↔
    ∀ bit < length.toNat, address.getMsbD bit = other.getMsbD bit := by
  constructor
  · intro same bit inside
    have bits := congrArg (fun network => network.getMsbD bit) same
    simpa only [getMsbD_masked, decide_eq_true inside, Bool.true_and] using bits
  · intro agree
    apply BitVec.eq_of_getMsbD_eq
    intro bit _
    rw [getMsbD_masked, getMsbD_masked]
    by_cases inside : bit < length.toNat
    · rw [agree bit inside]
    · rw [decide_eq_false inside, Bool.false_and, Bool.false_and]

/-- A mask rounds down to a multiple. -/
theorem masked_toNat (address : BitVec w) (length : U8) : (masked address length).toNat =
    address.toNat / 2 ^ (w - min length.toNat w) * 2 ^ (w - min length.toNat w) := by
  set behind := w - min length.toNat w with behindEq
  have shifted : masked address length = (address >>> behind) <<< behind := by
    apply BitVec.eq_of_getMsbD_eq
    intro bit inside
    rw [getMsbD_masked, BitVec.getMsbD_shiftLeft, BitVec.getMsbD_ushiftRight, Nat.add_sub_cancel,
      decide_eq_false (by omega : ¬ bit + behind < behind), Bool.not_false, Bool.true_and]
    congr 1
    apply decide_eq_decide.mpr
    omega
  have least : address.toNat / 2 ^ behind * 2 ^ behind ≤ address.toNat := Nat.div_mul_le_self _ _
  rw [shifted, BitVec.toNat_shiftLeft, BitVec.toNat_ushiftRight, Nat.shiftLeft_eq, Nat.shiftRight_eq_div_pow]
  exact Nat.mod_eq_of_lt (least.trans_lt address.isLt)

theorem masked_mono {address other : BitVec w} (le : address ≤ other) (length : U8) :
    masked address length ≤ masked other length := by
  have le' : address.toNat ≤ other.toNat := le
  rw [BitVec.le_def, masked_toNat, masked_toNat]
  exact Nat.mul_le_mul_right _ (Nat.div_le_div_right le')

end Masked

theorem subnetOf_eq_iff {address other : Ipv4Addr} {length : U8} :
    subnetOf address length = subnetOf other length ↔
      ∀ bit < length.toNat, address.getMsbD bit = other.getMsbD bit := by
  rw [subnetOf, subnetOf, Prod.mk.injEq, and_iff_left rfl, masked_eq_iff]

example : subnetOf 0xc0a8014d 24 = (0xc0a80100, 24) ∧ subnetOf 0x0a010203 0 = (0, 0) := by decide

/-- The network of a /64 is its first half. -/
theorem masked_of_network {address other : Ipv6Addr} (same : Ndp.network address = Ndp.network other) :
    masked address 64 = masked other 64 := by
  apply masked_eq_iff.mpr
  intro bit inside
  have small : bit < 64 := inside
  have bits := congrArg (fun half : U64 => half.getMsbD bit) same
  simp only [Ndp.network, BitVec.getMsbD_extractLsb'] at bits
  rw [decide_eq_true small, decide_eq_true (by omega : 64 + 64 - bit ≤ 128),
    show 128 - (64 + 64 - bit) = bit by omega] at bits
  simpa only [Bool.true_and] using bits

end Networks

open Networks (Signals masked subnetOf addPrefix6 masked_mono masked_of_network subnetOf_eq_iff)

/-! ## The prefixes of an engine -/

namespace Ndp.Engine

open PrefixList (Preferred)

/-- The masked prefixes of the addresses that are preferred, in the order of the addresses. -/
def networks (e : Engine) (now : ℕ) : List (Ipv6Addr × U8) :=
  ((e.addresses now).filter fun a => !a.deprecated).map fun a => (masked a.address a.prefixLength, a.prefixLength)

theorem foldl_addPrefix6 (addresses : List DesiredAddress) (prefixes : List (Ipv6Addr × U8)) :
    addresses.foldl addPrefix6 prefixes =
      ((addresses.filter fun a => !a.deprecated).map fun a => (masked a.address a.prefixLength, a.prefixLength)).foldl
        Sorting.pushNew prefixes := by
  rw [List.foldl_map, List.foldl_filter]
  congr 1
  funext prefixes a
  unfold addPrefix6
  cases a.deprecated <;> rfl

theorem address_le_of_le {a b : DesiredAddress} (le : a ≤ b) : a.address ≤ b.address := by
  have keys : a.sortKey ≤ b.sortKey := le
  rcases Prod.Lex.le_iff.mp keys with less | ⟨same, _⟩
  · exact le_of_lt less
  · exact le_of_eq same

theorem addresses_ordered (e : Engine) (now : ℕ) : (e.addresses now).Pairwise fun a b => a.address ≤ b.address :=
  (List.pairwise_insertionSort (· ≤ ·) _).imp address_le_of_le

/-- A prefix that is valid and preferred lists its stable address as preferred. -/
theorem preferred_listed {e : Engine} {now : ℕ} {key : Ipv6Addr ×ₗ U8} {p : Prefix}
    (stored : e.prefixes.lookup key = some p) (valid : Deadline.Ahead now p.validUntil)
    (preferred : Deadline.Ahead now p.preferredUntil) :
    (⟨p.stable, (ofLex key).2, false, p.onLink⟩ : DesiredAddress) ∈ e.addresses now := by
  have notEnded : (p.validUntil.any fun ends => decide (ends ≤ now)) = false :=
    Bool.eq_false_iff.mpr fun ended => Deadline.any_eq_true_iff.mp ended valid
  have current : (p.preferredUntil.any fun ends => decide (ends ≤ now)) = false :=
    Bool.eq_false_iff.mpr fun ended => Deadline.any_eq_true_iff.mp ended preferred
  simp only [addresses, view, List.mem_insertionSort, List.mem_flatMap]
  refine ⟨(key, p), (SortedMap.lookup_eq_some_iff _ _ _).mp stored, ?_⟩
  simp only [prefixAddresses, notEnded, current, Bool.false_eq_true, ↓reduceIte, List.mem_cons, true_or]

section Sound

variable {sha1 : Bytes → BitVec 160} {config : Config} {e : Engine} (sound : e.Sound sha1 config)

include sound

/-- Every listed address is of a /64. -/
theorem Sound.listed_length {now : ℕ} {a : DesiredAddress} (listed : a ∈ e.addresses now) : a.prefixLength = 64 := by
  obtain ⟨key, p, stored, within⟩ := listed_origin listed
  exact (mem_prefixAddresses (sound.prefixes key p stored) within).1

theorem Sound.mem_networks {now : ℕ} {net : Ipv6Addr × U8} : net ∈ e.networks now ↔
    ∃ a ∈ e.addresses now, a.deprecated = false ∧ net = (masked a.address 64, 64) := by
  simp only [networks, List.mem_map, List.mem_filter, Bool.not_eq_true']
  constructor
  · rintro ⟨a, ⟨listed, current⟩, rfl⟩
    exact ⟨a, listed, current, by rw [sound.listed_length listed]⟩
  · rintro ⟨a, listed, current, rfl⟩
    exact ⟨a, ⟨listed, current⟩, by rw [sound.listed_length listed]⟩

/-- A network has a preferred address exactly if one of its prefixes is valid and preferred. -/
theorem Sound.networks_preferred {now : ℕ} {net : Ipv6Addr × U8} : net ∈ e.networks now ↔
    ∃ key, Preferred now e.prefixList key ∧ net = (masked (ofLex key).1 64, 64) := by
  rw [sound.mem_networks]
  constructor
  · rintro ⟨a, listed, current, rfl⟩
    obtain ⟨key, p, stored, within⟩ := listed_origin listed
    obtain ⟨valid, preferred⟩ := prefixAddresses_inTime within
    refine ⟨key, ⟨_, prefixList_eq_some.mpr ⟨p, stored, rfl⟩, valid, preferred current⟩, ?_⟩
    rw [masked_of_network (network_of_listed (sound.prefixes key p stored) within)]
  · rintro ⟨key, ⟨l, held, valid, preferred⟩, rfl⟩
    obtain ⟨p, stored, rfl⟩ := prefixList_eq_some.mp held
    refine ⟨_, preferred_listed stored valid preferred, rfl, ?_⟩
    obtain ⟨iid, stable, _⟩ := stableAddress_join sha1 config (ofLex key).1
    have half : network p.stable = network (ofLex key).1 := by
      rw [(sound.prefixes key p stored).stable, stable, network_join]
    rw [masked_of_network half]

theorem Sound.networks_lt (now : ℕ) :
    ((e.networks now).foldl Sorting.pushNew []).Pairwise fun a b => a.1 < b.1 := by
  apply Sorting.foldl_pushNew_lt
  · rw [networks, List.pairwise_map]
    refine ((e.addresses_ordered now).filter _).imp_of_mem fun {a b} first second le => ?_
    have length {a : DesiredAddress} (kept : a ∈ (e.addresses now).filter fun a => !a.deprecated) :
        a.prefixLength = 64 := sound.listed_length (List.mem_filter.mp kept).1
    rw [length first, length second]
    exact masked_mono le 64
  · intro a first b second same
    obtain ⟨_, _, _, rfl⟩ := sound.mem_networks.mp first
    obtain ⟨_, _, _, rfl⟩ := sound.mem_networks.mp second
    exact Prod.ext same rfl

end Sound

/-- Engines with the same prefixes preferred show the same networks, whatever addresses they formed. -/
theorem networks_congr {sha1 : Bytes → BitVec 160} {config config' : Config} {e e' : Engine}
    (sound : e.Sound sha1 config) (sound' : e'.Sound sha1 config') {now now' : ℕ}
    (same : ∀ key, Preferred now e.prefixList key ↔ Preferred now' e'.prefixList key) :
    (e.networks now).foldl Sorting.pushNew [] = (e'.networks now').foldl Sorting.pushNew [] := by
  apply List.Perm.eq_of_pairwise _ (sound.networks_lt now) (sound'.networks_lt now')
  · apply (List.perm_ext_iff_of_nodup (Sorting.foldl_pushNew_nodup _ List.nodup_nil)
      (Sorting.foldl_pushNew_nodup _ List.nodup_nil)).mpr
    intro net
    simp only [Sorting.mem_foldl_pushNew, List.not_mem_nil, false_or, sound.networks_preferred,
      sound'.networks_preferred, same]
  · exact fun a b _ _ less more => absurd less (lt_asymm more)

/-! ## Timers and time -/

/-- No lifetime of a router or of a prefix ends between the two instants; those of temporary addresses may. -/
structure Steady (first second : ℕ) (e : Engine) : Prop where
  routers : ∀ entry ∈ e.routers.entries, Deadline.Settled first second (some entry.2)
  valid : ∀ entry ∈ e.prefixes.entries, Deadline.Settled first second entry.2.validUntil
  preferred : ∀ entry ∈ e.prefixes.entries, Deadline.Settled first second entry.2.preferredUntil

theorem Steady.defaultRouter_eq {e : Engine} {first second : ℕ} (le : first ≤ second) (steady : e.Steady first second) :
    e.defaultRouter second = e.defaultRouter first := by
  refine congrArg (Option.map Prod.fst) (List.find?_congr fun entry member => ?_)
  have same := (steady.routers entry member).all_eq le
  simpa only [Option.all_some] using same.symm

theorem Steady.preferred_iff {e : Engine} {first second : ℕ} (le : first ≤ second) (steady : e.Steady first second)
    (key : Ipv6Addr ×ₗ U8) : Preferred second e.prefixList key ↔ Preferred first e.prefixList key := by
  refine exists_congr fun l => and_congr_right fun held => ?_
  obtain ⟨p, stored, rfl⟩ := prefixList_eq_some.mp held
  have member := (SortedMap.lookup_eq_some_iff _ _ _).mp stored
  have ahead {ends : Option ℕ} (settled : Deadline.Settled first second ends) :
      Deadline.Ahead second ends ↔ Deadline.Ahead first ends := by
    rw [← Deadline.all_eq_true_iff, ← Deadline.all_eq_true_iff, settled.all_eq le]
  rw [ahead (steady.valid (key, p) member), ahead (steady.preferred (key, p) member)]

/-- The engine after its timers ran at some instants. -/
def ticked (e : Engine) (ticks : List ℕ) : Engine := ticks.foldl (fun e now => (e.tick now).1) e

theorem ticked_cons (e : Engine) (now : ℕ) (rest : List ℕ) : e.ticked (now :: rest) = (e.tick now).1.ticked rest := rfl

theorem ticked_sound {sha1 : Bytes → BitVec 160} {config : Config} {e : Engine} (sound : e.Sound sha1 config)
    (ticks : List ℕ) : (e.ticked ticks).Sound sha1 config :=
  List.foldlRecOn ticks _ sound fun _ sound now _ => tick_sound now sound

theorem tick_defaultRouter (e : Engine) {first second : ℕ} (le : first ≤ second) :
    (e.tick first).1.defaultRouter second = e.defaultRouter second := by
  rw [defaultRouter, (e.tick_schedule first).1, expire_routers, defaultRouter, SortedMap.filter, List.find?_filter]
  refine congrArg (Option.map Prod.fst) (List.find?_congr fun entry _ => ?_)
  by_cases ahead : second < entry.2
  · rw [decide_eq_true ahead, decide_eq_true (le.trans_lt ahead)]
    rfl
  · rw [decide_eq_false ahead]
    simp

/-- Timers drop what has ended, which shows no router and no prefix anyway. -/
theorem ticked_shows (e : Engine) {ticks : List ℕ} {later : ℕ} (past : ∀ now ∈ ticks, now ≤ later) :
    (e.ticked ticks).defaultRouter later = e.defaultRouter later ∧
      ∀ key, Preferred later (e.ticked ticks).prefixList key ↔ Preferred later e.prefixList key := by
  induction ticks generalizing e with
  | nil => exact ⟨rfl, fun _ => Iff.rfl⟩
  | cons now rest ih =>
    have reached : now ≤ later := past now List.mem_cons_self
    obtain ⟨router, preferred⟩ := ih (e.tick now).1 fun next member => past next (List.mem_cons_of_mem _ member)
    rw [e.tick_defaultRouter reached] at router
    rw [tick_prefixList] at preferred
    rw [ticked_cons]
    exact ⟨router, fun key => (preferred key).trans (PrefixList.preferred_expire reached e.prefixList key)⟩

end Ndp.Engine

namespace Interface

/-! ## Signals -/

section Signals

variable (i : Interface) (now : ℕ)

theorem signals_kind : (i.signals now).kind = i.link.kind.asStr := by
  unfold signals
  cases i.lease <;> cases i.ndp <;> rfl

theorem signals_server : (i.signals now).server = i.lease.map Dhcp4.Lease.server := by
  unfold signals
  cases i.lease <;> cases i.ndp <;> rfl

theorem signals_subnet :
    (i.signals now).subnet = i.lease.map fun lease => subnetOf lease.address lease.prefixLength := by
  unfold signals
  cases i.lease <;> cases i.ndp <;> rfl

theorem signals_router6 : (i.signals now).router6 = i.ndp.bind fun e => e.defaultRouter now := by
  unfold signals
  cases i.lease <;> cases i.ndp <;> rfl

variable {i}

theorem signals_prefixes6 {e : Ndp.Engine} (engine : i.ndp = some e) :
    (i.signals now).prefixes6 = (e.networks now).foldl Sorting.pushNew [] := by
  have folded := Ndp.Engine.foldl_addPrefix6 (e.addresses now) []
  unfold signals
  rw [engine]
  cases i.lease <;> exact folded

end Signals

section Identity

variable (sha1 : Bytes → BitVec 160)

theorem identity_congr {s t : Signals} (kind : t.kind = s.kind) (server : t.server = s.server)
    (subnet : t.subnet = s.subnet) (router6 : t.router6 = s.router6) (prefixes6 : t.prefixes6 = s.prefixes6) :
    t.identity sha1 = s.identity sha1 := by
  rw [Signals.identity, kind, server, subnet, router6, prefixes6, Signals.identity]

/-- Under a lease the identity is that of its server and its subnet. -/
theorem identity_of_lease {i j : Interface} {lease lease' : Dhcp4.Lease} (kind : j.link = i.link)
    (held : i.lease = some lease) (held' : j.lease = some lease') (server : lease'.server = lease.server)
    (subnet : subnetOf lease'.address lease'.prefixLength = subnetOf lease.address lease.prefixLength)
    (now later : ℕ) : (j.signals later).identity sha1 = (i.signals now).identity sha1 := by
  rw [Signals.identity, Signals.identity, signals_kind, signals_kind, signals_server, signals_server,
    signals_subnet, signals_subnet, held, held', kind, Option.map_some, Option.map_some, Option.map_some,
    Option.map_some, server, subnet]

/-! ## What does not change the identity -/

theorem receiveAdvert_frame (i : Interface) (now : ℕ) (message : Ipv6Addr × U8 × Bytes) :
    (i.receiveAdvert sha1 now message).1.lease = i.lease ∧ (i.receiveAdvert sha1 now message).1.link = i.link := by
  unfold receiveAdvert
  split
  · exact ⟨rfl, rfl⟩
  · split <;> exact ⟨rfl, rfl⟩

/-- The interface after some events. -/
def handled (i : Interface) (events : List Event) : Interface :=
  events.foldl (fun i event => (i.handle sha1 event).1) i

theorem handled_link (i : Interface) (events : List Event) : (i.handled sha1 events).link = i.link :=
  List.foldlRecOn (motive := fun j : Interface => j.link = i.link) events _ rfl
    fun _ same event _ => (handle_link sha1 _ event).trans same

/-- The interface after some advertisements, each at its instant. -/
def advised (i : Interface) (adverts : List (ℕ × Ipv6Addr × U8 × Bytes)) : Interface :=
  adverts.foldl (fun i advert => (i.receiveAdvert sha1 advert.1 advert.2).1) i

theorem advised_frame (i : Interface) (adverts : List (ℕ × Ipv6Addr × U8 × Bytes)) :
    (i.advised sha1 adverts).lease = i.lease ∧ (i.advised sha1 adverts).link = i.link :=
  List.foldlRecOn (motive := fun j : Interface => j.lease = i.lease ∧ j.link = i.link) adverts _ ⟨rfl, rfl⟩
    fun j same advert _ =>
      have frame := receiveAdvert_frame sha1 j advert.1 advert.2
      ⟨frame.1.trans same.1, frame.2.trans same.2⟩

/-- The interface after the timers of its engine ran at some instants. -/
def ticked (i : Interface) (ticks : List ℕ) : Interface := ticks.foldl (fun i now => (i.tickNdp now).1) i

theorem ticked_eq {i : Interface} {e : Ndp.Engine} (engine : i.ndp = some e) (ticks : List ℕ) :
    i.ticked ticks = { i with ndp := some (e.ticked ticks) } := by
  induction ticks generalizing i e with
  | nil =>
    change i = { i with ndp := some e }
    rw [← engine]
  | cons now rest ih =>
    have first : (i.tickNdp now).1 = { i with ndp := some (e.tick now).1 } := by
      unfold tickNdp
      rw [engine]
    change (i.tickNdp now).1.ticked rest = _
    rw [first, ih rfl]
    rfl

open Ndp Ndp.Engine in
/-- Temporary addresses may be made, deprecated and dropped without a trace in the identity. -/
theorem ticked_identity {config : Ndp.Config} {e : Engine} (sound : e.Sound sha1 config) {i : Interface}
    (engine : i.ndp = some e) {ticks : List ℕ} {now later : ℕ} (le : now ≤ later) (past : ∀ tick ∈ ticks, tick ≤ later)
    (steady : e.Steady now later) :
    ((i.ticked ticks).signals later).identity sha1 = (i.signals now).identity sha1 := by
  obtain ⟨router, preferred⟩ := e.ticked_shows past
  rw [ticked_eq engine]
  apply identity_congr
  · rw [signals_kind, signals_kind]
  · rw [signals_server, signals_server]
  · rw [signals_subnet, signals_subnet]
  · rw [signals_router6, signals_router6, engine, Option.bind_some, Option.bind_some, router, steady.defaultRouter_eq le]
  · rw [signals_prefixes6 later rfl, signals_prefixes6 now engine]
    apply networks_congr (ticked_sound sound ticks) sound
    exact fun key => (preferred key).trans (steady.preferred_iff le key)

open Ndp Ndp.Engine PrefixList in
/-- What does not identify a network leaves the identity alone. The prefixes of an interface are the networks
that have a preferred address, in strict order; they are the same for every configuration and seed of the
engine, and wherever its timers ran in between; a subnet is the first bits of an address. So the identity
stays the same over a lease of the same subnet from the same server, whatever happened before it was bound,
over advertisements while a lease is held, and while only temporary addresses come and go. -/
theorem identity_stable :
    (∀ config ops, ∀ i : Interface, ∀ e, e = (Engine.machine sha1).run (Engine.new config) ops → i.ndp = some e →
      ∀ now, ((i.signals now).prefixes6.Pairwise fun a b => a.1 < b.1) ∧
        ∀ net, net ∈ (i.signals now).prefixes6 ↔
          ∃ a ∈ e.addresses now, a.deprecated = false ∧ net = (masked a.address 64, 64)) ∧
    (∀ config config' ops, ∀ i j : Interface, i.ndp = some ((Engine.machine sha1).run (Engine.new config) ops) →
      j.ndp = some ((Engine.machine sha1).run (Engine.new config') ops) →
      ∀ now, (j.signals now).prefixes6 = (i.signals now).prefixes6) ∧
    (∀ config config' ops ops' now, InOrder now ops → InOrder now ops' → ops'.filter isReceive = ops.filter isReceive →
      ∀ i j : Interface, i.ndp = some ((Engine.machine sha1).run (Engine.new config) ops) →
        j.ndp = some ((Engine.machine sha1).run (Engine.new config') ops') →
        (j.signals now).prefixes6 = (i.signals now).prefixes6) ∧
    (∀ (address other : Ipv4Addr) (length : U8), subnetOf address length = subnetOf other length ↔
      ∀ bit < length.toNat, address.getMsbD bit = other.getMsbD bit) ∧
    (∀ (i : Interface) events lease lease', i.lease = some lease → (i.handled sha1 events).lease = some lease' →
      lease'.server = lease.server → lease'.prefixLength = lease.prefixLength →
      (∀ bit < lease.prefixLength.toNat, lease'.address.getMsbD bit = lease.address.getMsbD bit) →
      ∀ now later, ((i.handled sha1 events).signals later).identity sha1 = (i.signals now).identity sha1) ∧
    (∀ (i : Interface) adverts, i.lease.isSome = true →
      ∀ now later, ((i.advised sha1 adverts).signals later).identity sha1 = (i.signals now).identity sha1) ∧
    (∀ config ops, ∀ i : Interface, ∀ e, e = (Engine.machine sha1).run (Engine.new config) ops → i.ndp = some e →
      ∀ ticks now later, now ≤ later → (∀ tick ∈ ticks, tick ≤ later) → e.Steady now later →
        ((i.ticked ticks).signals later).identity sha1 = (i.signals now).identity sha1) := by
  refine ⟨?_, ?_, ?_, ?_, ?_, ?_, ?_⟩
  · rintro config ops i e rfl engine now
    have sound : ((Engine.machine sha1).run (Engine.new config) ops).Sound sha1 config := reachable_sound config ops
    rw [signals_prefixes6 now engine]
    refine ⟨sound.networks_lt now, fun net => ?_⟩
    rw [Sorting.mem_foldl_pushNew, or_iff_right List.not_mem_nil, sound.mem_networks]
  · intro config config' ops i j engine engine' now
    rw [signals_prefixes6 now engine, signals_prefixes6 now engine']
    apply networks_congr (reachable_sound config' ops) (reachable_sound config ops)
    intro key
    rw [run_prefixList, run_prefixList]
  · intro config config' ops ops' now inOrder inOrder' same i j engine engine'
    rw [signals_prefixes6 now engine, signals_prefixes6 now engine']
    apply networks_congr (reachable_sound config' ops') (reachable_sound config ops)
    intro key
    rw [run_prefixList, run_prefixList, ← preferred_expire le_rfl, run_receives inOrder', same,
      ← run_receives inOrder, preferred_expire le_rfl]
  · exact fun address other length => subnetOf_eq_iff
  · intro i events lease lease' held held' server length agree now later
    apply identity_of_lease sha1 (handled_link sha1 i events) held held' server
    rw [length]
    exact subnetOf_eq_iff.mpr agree
  · intro i adverts isLeased now later
    obtain ⟨lease, held⟩ := Option.isSome_iff_exists.mp isLeased
    obtain ⟨kept, link⟩ := advised_frame sha1 i adverts
    exact identity_of_lease sha1 link held (kept.trans held) rfl rfl now later
  · rintro config ops i e rfl engine ticks now later le past steady
    exact ticked_identity sha1 (reachable_sound config ops) engine le past steady

end Identity

/-! ## A temporary address replaced -/

/-- 2001:db8::/64 for ever, from a router for the longest it can say. -/
def lastingAdvert : Bytes :=
  [134, 0, 0, 0, 64, 0, 0xff, 0xff, 0, 0, 0, 0, 0, 0, 0, 0] ++ [3, 4, 64, 0xc0] ++ List.replicate 8 0xff ++
    [0, 0, 0, 0] ++ Ipv6Addr.octets 0x20010db8000000000000000000000000

/-- Heard at the start and again after sixty thousand seconds. -/
def lastingOps : List Ndp.Engine.Op :=
  [.start 0, .receive 0 0xfe800000000000000000000000000001 lastingAdvert,
    .receive (Duration.fromSecs 60000) 0xfe800000000000000000000000000001 lastingAdvert]

/-- An engine with temporary addresses that heard it. -/
def lastingEngine : Ndp.Engine :=
  (Ndp.Engine.machine Ndp.Engine.fixedDigest).run (Ndp.Engine.new Ndp.Engine.privateConfig) lastingOps

def lastingInterface : Interface :=
  { Interface.new "eth0" ⟨2, "eth0", none, true, true, false, 1500, 1, .ether⟩ with ndp := some lastingEngine }

theorem lasting_steady : lastingEngine.Steady (Duration.fromSecs 80000) (Duration.fromSecs 90000) := by
  have routers : lastingEngine.routers.entries.map Prod.snd = [Duration.fromSecs 125535] := by decide +kernel
  have ends : lastingEngine.prefixes.entries.map (fun entry => (entry.2.validUntil, entry.2.preferredUntil)) =
      [(none, none)] := by
    decide +kernel
  have forever (entry) (member : entry ∈ lastingEngine.prefixes.entries) :
      (entry.2.validUntil, entry.2.preferredUntil) = (none, none) := by
    have listed := List.mem_map_of_mem
      (f := fun entry : (Ipv6Addr ×ₗ U8) × Ndp.Prefix => (entry.2.validUntil, entry.2.preferredUntil)) member
    rw [ends] at listed
    exact List.mem_singleton.mp listed
  refine ⟨fun entry member => ?_, fun entry member => ?_, fun entry member => ?_⟩
  · have listed := List.mem_map_of_mem (f := Prod.snd) member
    rw [routers, List.mem_singleton] at listed
    rintro moment same
    rw [← Option.some.inj same, listed]
    decide
  · rw [(Prod.mk.inj (forever entry member)).1]
    exact fun _ none => nomatch none
  · rw [(Prod.mk.inj (forever entry member)).2]
    exact fun _ none => nomatch none

/-- In the night a new temporary address replaces the first, and the network stays the same. -/
theorem network_kept_overnight :
    let after := lastingInterface.ticked [Duration.fromSecs 90000]
    (lastingEngine.addresses (Duration.fromSecs 80000)).length = 2 ∧
      (lastingEngine.ticked [Duration.fromSecs 90000]).addresses (Duration.fromSecs 90000) ≠
        lastingEngine.addresses (Duration.fromSecs 80000) ∧
      (lastingInterface.signals (Duration.fromSecs 80000)).prefixes6 = [(0x20010db8000000000000000000000000, 64)] ∧
      (after.signals (Duration.fromSecs 90000)).identity Ndp.Engine.fixedDigest =
        (lastingInterface.signals (Duration.fromSecs 80000)).identity Ndp.Engine.fixedDigest := by
  refine ⟨by decide +kernel, by decide +kernel, by decide +kernel, ?_⟩
  exact (identity_stable Ndp.Engine.fixedDigest).2.2.2.2.2.2 Ndp.Engine.privateConfig lastingOps lastingInterface
    lastingEngine rfl rfl [Duration.fromSecs 90000] _ _ (by decide) (by decide) lasting_steady

end Interface

end Netd.Model
