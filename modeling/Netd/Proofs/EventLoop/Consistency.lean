import Netd.Proofs.EventLoop.LinkLocals
import Netd.Proofs.Reconcile.Convergence

/-! # Desired states that do not contradict themselves

The addresses an operator writes into a profile and those an engine forms from advertised prefixes end
up in one list. The same address twice with different flags is added twice on every pass, each time
undoing the other. The engine lists no address twice as long as no advertisement brings together two
spellings of one prefix; then only an address of the profile's own can contradict one of the engine's.
-/

namespace Netd.Model.Interface

open Reconcile (Desired DesiredV6 plan apply tables Keyed)
open Ndp (RouterAdvert)

/-- The same address and prefix length are asked for with the same flags. -/
def Unambiguous (d : Desired) : Prop :=
  ∀ first ∈ d.addresses6, ∀ second ∈ d.addresses6,
    first.address = second.address → first.prefixLength = second.prefixLength → first = second

/-- No address of the profile's own is one that the engine lists as deprecated or off-link. -/
def StaticsApart (i : Interface) (now : ℕ) : Prop :=
  ∀ p, i.profile = some p → ∀ s ∈ p.address.statics, ∀ a, s.address = .v6 a → s.prefixLength = 64 →
    ∀ e, i.ndp = some e → ∀ entry ∈ e.addresses now, entry.address = a →
      entry.deprecated = false ∧ entry.onLink = true

/-- A step after which the engine still lists no address twice: an advertisement that a running engine
accepts brings together no two prefixes that differ only in their last eight octets. -/
def PrefixesClear (slot : Option Interface) : Step → Prop
  | .event (.advert now message) =>
    message.2.1 = 255 → isV6LinkLocal message.1 = true → ∀ e, engineAt slot = some e →
      e.Safe (.receive now message.1 message.2.2)
  | _ => True

variable {sha1 : Bytes → BitVec 160}

/-- An engine that lists no address twice, now or later. -/
def EngineClear (sha1 : Bytes → BitVec 160) (e : Ndp.Engine) : Prop :=
  (∃ config, e.Sound sha1 config) ∧ e.Separated

theorem EngineClear.next {e : Ndp.Engine} (clear : EngineClear sha1 e) (op : Ndp.Engine.Op) (safe : e.Safe op) :
    EngineClear sha1 ((Ndp.Engine.machine sha1).next e op) := by
  obtain ⟨⟨config, sound⟩, separated⟩ := clear
  exact ⟨⟨config, Ndp.Engine.next_sound e op sound⟩, Ndp.Engine.next_separated op sound separated safe⟩

theorem begun_clear (config : Ndp.Config) (now : ℕ) : EngineClear sha1 ((Ndp.Engine.new config).start now).1 := by
  have fresh : EngineClear sha1 (Ndp.Engine.new config) := by
    refine ⟨⟨config, Ndp.Engine.new_sound config⟩, ?_⟩
    intro key _ p _ stored
    have absent : (Ndp.Engine.new config).prefixes.lookup key = none := SortedMap.lookup_empty key
    rw [absent] at stored
    contradiction
  exact fresh.next (.start now) trivial

/-- The engine at an index lists no address twice. -/
def Clear (sha1 : Bytes → BitVec 160) (slot : Option Interface) : Prop :=
  ∀ e ∈ engineAt slot, EngineClear sha1 e

theorem next_clear {slot : Option Interface} {step : Step} (allowed : PrefixesClear slot step)
    (clear : Clear sha1 slot) : Clear sha1 ((slots sha1).next slot step) := by
  refine next_engine begun_clear (fun e now clear => clear.next (.tick now) trivial) ?_ clear
  rintro e now message rfl hops source engine clear
  exact clear.next (.receive now message.1 message.2.2) (allowed hops source e engine)

/-! ## One list -/

theorem EngineClear.unambiguous {e : Ndp.Engine} (clear : EngineClear sha1 e) {now : ℕ}
    {first second : Ndp.DesiredAddress} (left : first ∈ e.addresses now) (right : second ∈ e.addresses now)
    (address : first.address = second.address) : first = second := by
  obtain ⟨⟨config, sound⟩, separated⟩ := clear
  obtain ⟨nodup, wide⟩ := Ndp.Engine.wellFormed_of_separated sound separated now
  apply List.inj_on_of_nodup_map nodup left right
  rw [address, (wide first left).1, (wide second right).1]

/-- What the engine of an interface lists. -/
theorem mem_listed {i : Interface} {now : ℕ} {a : DesiredV6}
    (member : a ∈ ((i.ndp.map fun e => e.addresses now).getD []).map slaacAddress) :
    ∃ e entry, i.ndp = some e ∧ entry ∈ e.addresses now ∧ slaacAddress entry = a := by
  obtain ⟨entry, listed, same⟩ := List.mem_map.mp member
  cases engine : i.ndp with
  | none =>
    rw [engine] at listed
    contradiction
  | some e =>
    rw [engine] at listed
    exact ⟨e, entry, rfl, listed, same⟩

/-- An address of the profile's own and one the engine lists agree where they are apart. -/
theorem StaticsApart.eq {i : Interface} {now : ℕ} {p : Profile} (apart : StaticsApart i now)
    (profile : i.profile = some p) {first : DesiredV6} (static : first ∈ statics6 p.address.statics)
    {e : Ndp.Engine} (engine : i.ndp = some e) (clear : EngineClear sha1 e) {entry : Ndp.DesiredAddress}
    (listed : entry ∈ e.addresses now) (address : first.address = entry.address)
    (length : first.prefixLength = entry.prefixLength) : first = slaacAddress entry := by
  obtain ⟨⟨config, sound⟩, separated⟩ := clear
  have wide := ((Ndp.Engine.wellFormed_of_separated sound separated now).2 entry listed).1
  obtain ⟨s, named, own, same⟩ := mem_statics6.mp static
  have long : s.prefixLength = 64 := by
    rw [same] at length
    exact length.trans wide
  obtain ⟨preferred, onLink⟩ :=
    apart p profile s named first.address own long e engine entry listed address.symm
  rw [same, slaacAddress, preferred, onLink, address, long, wide]
  rfl

/-- With an engine that lists no address twice, contradictions are between it and the profile. -/
theorem unambiguous_iff {i : Interface} {now : ℕ} {d : Desired} (wanted : i.desired now = some d)
    (clear : ∀ e ∈ i.ndp, EngineClear sha1 e) : Unambiguous d ↔ StaticsApart i now := by
  obtain ⟨none, unjoined⟩ | ⟨p, profile, joins, addresses⟩ := desired_addresses6 wanted
  · constructor
    · intro _ p profile
      rw [unjoined] at profile
      contradiction
    · intro _ first left
      rw [none] at left
      contradiction
  · constructor
    · intro unambiguous q joined s named a own length e engine entry listed address
      obtain rfl := Option.some.inj (profile.symm.trans joined)
      obtain ⟨⟨config, sound⟩, separated⟩ := clear e engine
      have wide := ((Ndp.Engine.wellFormed_of_separated sound separated now).2 entry listed).1
      have static : (⟨a, 64, false, false⟩ : DesiredV6) ∈ d.addresses6 := by
        rw [addresses]
        refine List.mem_append_left _ (mem_statics6.mpr ⟨s, named, own, ?_⟩)
        rw [length]
      have formed : slaacAddress entry ∈ d.addresses6 := by
        rw [addresses, engine]
        exact List.mem_append_right _ (List.mem_map_of_mem listed)
      have same := unambiguous _ static _ formed address.symm wide.symm
      have deprecated : false = entry.deprecated := congrArg DesiredV6.deprecated same
      have offLink : false = !entry.onLink := congrArg DesiredV6.noPrefixRoute same
      exact ⟨deprecated.symm, by simpa using offLink.symm⟩
    · intro apart first left second right address length
      rw [addresses] at left right
      obtain left | left := List.mem_append.mp left
      · obtain right | right := List.mem_append.mp right
        · obtain ⟨s, -, -, one⟩ := mem_statics6.mp left
          obtain ⟨t, -, -, two⟩ := mem_statics6.mp right
          rw [one, two] at length ⊢
          rw [address, show s.prefixLength = t.prefixLength from length]
        · obtain ⟨e, entry, engine, listed, rfl⟩ := mem_listed right
          exact apart.eq profile left engine (clear e engine) listed address length
      · obtain ⟨e, entry, engine, listed, rfl⟩ := mem_listed left
        obtain right | right := List.mem_append.mp right
        · exact (apart.eq profile right engine (clear e engine) listed address.symm length.symm).symm
        · obtain ⟨other, again, engine', listed', rfl⟩ := mem_listed right
          obtain rfl := Option.some.inj (engine.symm.trans engine')
          rw [(clear e engine).unambiguous listed listed' address]

/-! ## Whole lives -/

/-- As long as no advertisement brings together two spellings of one prefix, a desired state does not
contradict itself exactly where the profile and the engine do not; and where moreover the profile names
no link-local, the state is reached by applying one plan. -/
theorem desired_consistent {steps : List Step} {slot : Option Interface}
    (life : (slots sha1).Run PrefixesClear none steps slot) {i : Interface} (there : i ∈ slot) (now : ℕ) :
    ∀ d ∈ i.desired now, (Unambiguous d ↔ StaticsApart i now) ∧
      ((∀ p ∈ i.profile, StaticsFree p) → StaticsApart i now → ∀ o, Keyed o →
        plan (apply (tables fun _ _ => none) o (plan o d)).1 d = []) := by
  intro d wanted
  have empty : Clear sha1 none := fun _ none => nomatch none
  have clear : Clear sha1 slot := life.invariant empty fun _ _ allowed clear => next_clear allowed clear
  have engine : ∀ e ∈ i.ndp, EngineClear sha1 e := by
    rw [Option.mem_def.mp there] at clear
    exact clear
  have unambiguous := unambiguous_iff wanted engine
  refine ⟨unambiguous, fun sparing apart o keyed => ?_⟩
  have free : ∀ a ∈ d.addresses6, isV6LinkLocal a.address = false :=
    (desired_free_iff wanted (engine_free (life.run_eq ▸ there))).mpr sparing
  exact (Reconcile.next_plan_is_refused o d keyed ⟨free, unambiguous.mpr apart⟩).2

theorem plain_life_consistent :
    ∃ i ∈ (slots fun _ => 0).run none [.sight sighting, .event (.advert 0 plainAdvert)],
      ∃ d ∈ i.desired 0, d.addresses6 ≠ [] ∧ (Unambiguous d ↔ StaticsApart i 0) ∧
        Keyed carrying ∧ plan carrying d ≠ [] ∧
          plan (apply (tables fun _ _ => none) carrying (plan carrying d)).1 d = [] := by
  obtain ⟨i, there, d, wanted, listed⟩ := plain_life_listed
  have planned : (((slots fun _ => 0).run none [.sight sighting, .event (.advert 0 plainAdvert)]).bind
      fun i => i.desired 0).all fun d => decide (plan carrying d ≠ []) := by decide +kernel
  rw [Option.mem_def.mp there, Option.bind_some, Option.mem_def.mp wanted] at planned
  have keyed : Keyed carrying := ⟨by decide, by decide⟩
  have free : ∀ p ∈ i.profile, StaticsFree p := by
    intro p profile s named
    rw [plain_life_static there p profile] at named
    contradiction
  have apart : StaticsApart i 0 := by
    intro p profile s named
    rw [plain_life_static there p profile] at named
    contradiction
  have one : (RouterAdvert.decode plainAdvert.2.2).all fun ra =>
      ra.prefixes.all fun info => info.prefixAddr == 0x20010db8000000000000000000000000#128 := by decide +kernel
  have fresh : (engineAt ((slots fun _ => 0).next none (.sight sighting))).all fun e =>
      e.prefixes.entries.isEmpty := by decide +kernel
  have second : PrefixesClear ((slots fun _ => 0).next none (.sight sighting)) (.event (.advert 0 plainAdvert)) := by
    rintro - - e engine ra decoded ⟨info, member, -, other, differ, -, ⟨p, stored, -⟩ | ⟨_, again, -, rfl⟩⟩
    · rw [engine] at fresh
      have none : e.prefixes.entries = [] := List.isEmpty_iff.mp fresh
      rw [SortedMap.lookup_eq_some_iff, none] at stored
      contradiction
    · rw [decoded] at one
      have same (info) (member : info ∈ ra.prefixes) : info.prefixAddr = 0x20010db8000000000000000000000000#128 :=
        beq_iff_eq.mp (List.all_eq_true.mp one info member)
      exact differ ((same _ again).trans (same info member).symm)
  have life : (slots fun _ => 0).Run PrefixesClear none [.sight sighting, .event (.advert 0 plainAdvert)] _ :=
    .cons trivial (.cons second (.nil _))
  obtain ⟨unambiguous, settled⟩ := desired_consistent life there 0 d wanted
  exact ⟨i, there, d, wanted, listed, unambiguous, keyed, of_decide_eq_true planned, settled free apart carrying keyed⟩

/-- An autonomous /64 with the on-link flag or without. -/
def flaggedOption (onLink : Bool) (prefixAddr : Ipv6Addr) : Bytes :=
  [3, 4, 64, if onLink then 0xc0 else 0x40] ++ toBeBytes 4 86400#32 ++ toBeBytes 4 14400#32 ++ [0, 0, 0, 0] ++
    prefixAddr.octets

/-- 2001:db8::/64 on-link, and the same prefix spelt 2001:db8::1/64 off-link. -/
def contradictingAdvert : Ipv6Addr × U8 × Bytes :=
  (0xfe800000000000000000000000000001#128, 255,
    [134, 0, 0, 0, 64, 0, 0x07, 0x08, 0, 0, 0, 0, 0, 0, 0, 0] ++
      flaggedOption true 0x20010db8000000000000000000000000 ++
      flaggedOption false 0x20010db8000000000000000000000001)

/-- That advertisement makes the interface ask for one address with and without a prefix route, and
the plan after a plan that was carried out is not empty. -/
theorem flags_contradicted :
    ((((slots fun _ => 0x0123456789abcdef0123456789abcdef01234567#160).run none
          [.sight sighting, .event (.advert 0 contradictingAdvert)]).bind fun i => i.desired 0).map fun d =>
        (d.addresses6, (plan (apply (tables fun _ _ => none) carrying (plan carrying d)).1 d).length)) =
      some ([⟨0x20010db8000000000123456789abcdef, 64, false, true⟩,
        ⟨0x20010db8000000000123456789abcdef, 64, false, false⟩], 1) ∧
    ¬∀ (sha1 : Bytes → BitVec 160) (steps : List Step), ∀ i ∈ (slots sha1).run none steps,
      ∀ now, ∀ d ∈ i.desired now, Unambiguous d := by
  have listed : ((((slots fun _ => 0x0123456789abcdef0123456789abcdef01234567#160).run none
          [.sight sighting, .event (.advert 0 contradictingAdvert)]).bind fun i => i.desired 0).map fun d =>
        (d.addresses6, (plan (apply (tables fun _ _ => none) carrying (plan carrying d)).1 d).length)) =
      some ([⟨0x20010db8000000000123456789abcdef, 64, false, true⟩,
        ⟨0x20010db8000000000123456789abcdef, 64, false, false⟩], 1) := by decide +kernel
  refine ⟨listed, fun consistent => ?_⟩
  obtain ⟨d, found, same⟩ := Option.map_eq_some_iff.mp listed
  obtain ⟨i, there, wanted⟩ := Option.bind_eq_some_iff.mp found
  have unambiguous := consistent _ _ i there 0 d wanted
  rw [Unambiguous, (Prod.mk.inj same).1] at unambiguous
  have clash := unambiguous _ List.mem_cons_self _ (List.mem_cons_of_mem _ List.mem_cons_self) rfl rfl
  have flags := congrArg DesiredV6.noPrefixRoute clash
  exact Bool.noConfusion flags

end Netd.Model.Interface
