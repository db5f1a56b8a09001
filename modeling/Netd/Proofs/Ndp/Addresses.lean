import Netd.Proofs.Ndp.Adverts
import Netd.Proofs.Ndp.Random

/-! # Where the engine's addresses come from

Every address joins the first half of a stored prefix to an identifier that is not reserved: the stable
one from a digest, the temporary ones drawn. `Sound` says so of every stored prefix, and that no prefix
uses an address twice; every operation keeps it. It says nothing across prefixes.
-/

namespace Netd.Model.Ndp

/-- The first eight octets of an address. -/
def network (address : Ipv6Addr) : U64 := address.extractLsb' 64 64

/-- The last eight octets of an address. -/
def interfaceId (address : Ipv6Addr) : U64 := address.setWidth 64

theorem network_join (prefixAddr : Ipv6Addr) (iid : U64) : network (join prefixAddr iid) = network prefixAddr :=
  BitVec.extractLsb'_append_eq_left

theorem interfaceId_join (prefixAddr : Ipv6Addr) (iid : U64) : interfaceId (join prefixAddr iid) = iid :=
  BitVec.setWidth_append_eq_right

theorem join_congr {first second : Ipv6Addr} (same : network first = network second) (iid : U64) :
    join first iid = join second iid := congrArg (· ++ iid) same

/-- The octets that are hashed are those of the network half. -/
theorem octets_take_eight (address : Ipv6Addr) :
    address.octets.take 8 = toBeBytes 8 (network address) := by
  simp only [Ipv6Addr.octets, toBeBytes, network, ← List.map_take]
  apply List.map_congr_left
  intro index member
  have small : index < 8 := List.mem_range.mp member
  apply BitVec.eq_of_getLsbD_eq
  intro bit inside
  simp only [BitVec.getLsbD_extractLsb', inside, decide_true, Bool.true_and]
  rw [decide_eq_true (by omega), Bool.true_and]
  congr 1
  omega

section Stable

variable (sha1 : Bytes → BitVec 160)

theorem stableIid_congr (config : Config) {first second : Ipv6Addr} (same : network first = network second)
    (counter : ℕ) : stableIid sha1 config first counter = stableIid sha1 config second counter := by
  simp only [stableIid, octets_take_eight, same]

/-- Prefixes with the same first half give the same stable address. -/
theorem stableAddress_congr (config : Config) {first second : Ipv6Addr} (same : network first = network second) :
    stableAddress sha1 config first = stableAddress sha1 config second := by
  have iids := funext fun counter => stableIid_congr sha1 config same counter
  unfold stableAddress
  simp only [iids, join_congr same]

/-- A stable address is of its prefix, with an identifier that is not reserved. -/
theorem stableAddress_join (config : Config) (prefixAddr : Ipv6Addr) :
    ∃ iid, stableAddress sha1 config prefixAddr = join prefixAddr iid ∧ reservedIid iid = false := by
  unfold stableAddress
  split
  · next counter found => exact ⟨_, rfl, by simpa using List.find?_some found⟩
  · exact ⟨1, rfl, by decide⟩

/-! ## The invariant -/

/-- What holds of a stored prefix: its length, its stable address, and its temporary addresses, all
different and within their limit. -/
structure PrefixSound (config : Config) (key : Ipv6Addr ×ₗ U8) (p : Prefix) : Prop where
  length : (ofLex key).2 = 64
  stable : p.stable = stableAddress sha1 config (ofLex key).1
  temps : ∀ temp ∈ p.temps, ∃ iid, temp.address = join (ofLex key).1 iid ∧ reservedIid iid = false
  nodup : (p.stable :: p.temps.map Temp.address).Nodup
  few : p.temps.length ≤ maxTemps

/-- What holds of every reachable engine: a generator that is not stuck, and sound prefixes. -/
structure Engine.Sound (config : Config) (e : Engine) : Prop where
  config_eq : e.config = config
  rng : e.rng ≠ 0
  prefixes : ∀ key p, e.prefixes.lookup key = some p → PrefixSound sha1 config key p

variable {sha1}

/-- Fewer temporary addresses are as sound. -/
theorem PrefixSound.sublist {config : Config} {key : Ipv6Addr ×ₗ U8} {p : Prefix}
    (sound : PrefixSound sha1 config key p) {temps : List Temp} (sub : temps.Sublist p.temps) :
    PrefixSound sha1 config key { p with temps := temps } where
  length := sound.length
  stable := sound.stable
  temps := fun temp member => sound.temps temp (sub.subset member)
  nodup := sound.nodup.sublist ((sub.map Temp.address).cons_cons p.stable)
  few := sub.length_le.trans sound.few

/-- One more temporary address is of the prefix and different from the others. -/
theorem PrefixSound.withTemp {config : Config} {key : Ipv6Addr ×ₗ U8} {p : Prefix}
    (sound : PrefixSound sha1 config key p) {rng : U64} (nonzero : rng ≠ 0) (now : ℕ) :
    (∀ temp ∈ p.temps ++ [(newTemp rng now (ofLex key).1 p).1],
      ∃ iid, temp.address = join (ofLex key).1 iid ∧ reservedIid iid = false) ∧
    (p.stable :: (p.temps ++ [(newTemp rng now (ofLex key).1 p).1]).map Temp.address).Nodup := by
  obtain ⟨iid, address, unreserved, free⟩ := newTemp_address nonzero now (ofLex key).1 sound.few
  refine ⟨fun temp member => ?_, ?_⟩
  · rcases List.mem_append.mp member with old | new
    · exact sound.temps temp old
    · rw [List.mem_singleton.mp new]
      exact ⟨iid, address, unreserved⟩
  · rw [List.map_append, ← List.cons_append]
    refine sound.nodup.append (List.nodup_singleton _) fun used old new => ?_
    rw [List.map_singleton, List.mem_singleton, address] at new
    rw [new, ← taken_iff, free] at old
    contradiction

namespace Engine

theorem refreshed_sound {config : Config} {key : Ipv6Addr ×ₗ U8} {p : Prefix}
    (sound : PrefixSound sha1 config key p) {rng : U64} (nonzero : rng ≠ 0) (now : ℕ) :
    PrefixSound sha1 config key (refreshed config now rng key p) := by
  have kept : PrefixSound sha1 config key (withoutEnded now p) := sound.sublist List.filter_sublist
  unfold refreshed
  dsimp only
  split
  · obtain ⟨addresses, nodup⟩ := kept.withTemp nonzero now
    exact ⟨kept.length, kept.stable, fun temp member => addresses temp (newestTemps_subset member),
      nodup.sublist (((List.drop_sublist _ _).map Temp.address).cons_cons _), newestTemps_length _⟩
  · exact kept.sublist (List.drop_sublist _ _)

theorem expire_sound {config : Config} {e : Engine} (now : ℕ) (sound : e.Sound sha1 config) :
    (e.expire now).Sound sha1 config := by
  obtain ⟨rng, prefixes, frame⟩ := e.expire_frame now
  refine ⟨?_, expire_rng nextRandom_ne_zero e now sound.rng, fun key after looked => ?_⟩
  · rw [frame]
    exact (e.dropEnded_config now).trans sound.config_eq
  · obtain ⟨rng, nonzero, found⟩ := expire_lookup nextRandom_ne_zero e now sound.rng key
    rw [looked] at found
    obtain ⟨p, kept, rfl⟩ := Option.map_eq_some_iff.mp found.symm
    rw [sound.config_eq]
    exact refreshed_sound (sound.prefixes key p (Option.filter_eq_some_iff.mp kept).1) nonzero now

theorem receivePrefix_rng (now : ℕ) (e : Engine) (info : PrefixInfo) (nonzero : e.rng ≠ 0) :
    (receivePrefix sha1 now e info).rng ≠ 0 := by
  unfold receivePrefix
  dsimp only
  repeat' split
  all_goals first | exact nonzero | exact newTemp_good nextRandom_ne_zero now _ _ nonzero

theorem formed_sound {config : Config} (now : ℕ) {info : PrefixInfo} (isUsable : usable info = true) :
    PrefixSound sha1 config (infoKey info) (formed sha1 config now info) where
  length := by
    simp only [usable, Bool.and_eq_true, beq_iff_eq] at isUsable
    exact isUsable.1.2
  stable := rfl
  temps := fun _ member => nomatch member
  nodup := List.nodup_singleton _
  few := Nat.zero_le _

theorem receivePrefix_sound {config : Config} (now : ℕ) {e : Engine} (info : PrefixInfo)
    (sound : e.Sound sha1 config) : (receivePrefix sha1 now e info).Sound sha1 config := by
  obtain ⟨rng, prefixes, frame⟩ := receivePrefix_frame sha1 now e info
  refine ⟨?_, receivePrefix_rng now e info sound.rng, fun key after looked => ?_⟩
  · rw [frame]
    exact sound.config_eq
  · have move := receivePrefix_told sha1 now e info key
    rw [looked] at move
    generalize result : some after = found at move
    cases move with
    | kept _ => exact sound.prefixes key after result.symm
    | updated _ _ stored =>
      obtain rfl := Option.some.inj result
      have before := sound.prefixes key _ stored
      exact ⟨before.length, before.stable, before.temps, before.nodup, before.few⟩
    | formed isUsable same _ _ temporary =>
      obtain rfl := Option.some.inj result
      subst same
      rw [sound.config_eq] at temporary ⊢
      have empty : PrefixSound sha1 config (infoKey info) (formed sha1 config now info) := formed_sound now isUsable
      rcases temporary with rfl | rfl
      · exact empty
      · obtain ⟨addresses, nodup⟩ := empty.withTemp sound.rng now
        exact ⟨empty.length, empty.stable, addresses, nodup, show 1 ≤ maxTemps by decide⟩

theorem new_sound (config : Config) : (new config).Sound sha1 config where
  config_eq := rfl
  rng := or_one_ne_zero config.seed
  prefixes := fun key p stored => by
    have absent : (new config).prefixes.lookup key = none := SortedMap.lookup_empty key
    rw [absent] at stored
    contradiction

theorem solicitDue_sound {config : Config} {e : Engine} (now : ℕ) (sound : e.Sound sha1 config) :
    (e.solicitDue now).1.Sound sha1 config := by
  unfold solicitDue
  dsimp only
  split
  · split
    · exact ⟨sound.config_eq, nextRandom_ne_zero _ sound.rng, sound.prefixes⟩
    · exact sound
  · exact sound

theorem emitIfChanged_sound {config : Config} {e : Engine} (now : ℕ) (actions : List Action)
    (sound : e.Sound sha1 config) : (e.emitIfChanged now actions).1.Sound sha1 config := by
  rw [emitIfChanged_fst]
  exact ⟨sound.config_eq, sound.rng, sound.prefixes⟩

theorem tick_sound {config : Config} {e : Engine} (now : ℕ) (sound : e.Sound sha1 config) :
    (e.tick now).1.Sound sha1 config :=
  emitIfChanged_sound now _ (solicitDue_sound now (expire_sound now sound))

theorem advertised_sound {config : Config} {e : Engine} (now : ℕ) (source : Ipv6Addr) (ra : RouterAdvert)
    (sound : e.Sound sha1 config) : (e.advertised sha1 now source ra).Sound sha1 config := by
  obtain ⟨prefixes, rng, config', _, _⟩ := e.receiveRouter_frame now source ra
  have router : (e.receiveRouter now source ra).Sound sha1 config :=
    ⟨config'.trans sound.config_eq, rng ▸ sound.rng, prefixes ▸ sound.prefixes⟩
  have folded : (ra.prefixes.foldl (receivePrefix sha1 now) (e.receiveRouter now source ra)).Sound sha1 config :=
    List.foldlRecOn ra.prefixes (receivePrefix sha1 now) router
      fun _ sound info _ => receivePrefix_sound now info sound
  exact ⟨folded.config_eq, folded.rng, folded.prefixes⟩

theorem next_sound {config : Config} (e : Engine) (op : Op) (sound : e.Sound sha1 config) :
    ((machine sha1).next e op).Sound sha1 config := by
  cases op with
  | start now =>
    have begun : Sound sha1 config
        { e with solicits := 0, solicitInterval := Ndp.solicitInterval, solicitAt := some now } :=
      ⟨sound.config_eq, sound.rng, sound.prefixes⟩
    rw [next_start]
    exact tick_sound now begun
  | tick now =>
    rw [next_tick]
    exact tick_sound now sound
  | receive now source body =>
    rw [next_receive, receive]
    split
    · exact sound
    · exact emitIfChanged_sound now _ (expire_sound now (advertised_sound now source _ sound))

/-- Every reachable engine is sound. -/
theorem reachable_sound (config : Config) (ops : List Op) :
    ((machine sha1).run (new config) ops).Sound sha1 config :=
  (machine sha1).run_invariant next_sound (new_sound config) ops

end Engine

end Stable

end Netd.Model.Ndp
