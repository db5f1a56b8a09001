import Netd.Model.Ndp.Engine

/-! # What expiry leaves

`expire` drops every statement whose lifetime has ended and refreshes the temporary addresses of the
prefixes that stay. `refreshed` says what becomes of one prefix; `expire_lookup` says that this is
all that happens to the stored prefixes, whatever the order in which they are visited. What is left
is `Fresh`: nothing in it has ended, and no temporary address is missing.
-/

namespace Netd.Model.Ndp.Engine

/-! ## Regeneration -/

/-- A prefix with one more temporary address. -/
def withTemp (now : ℕ) (rng : U64) (key : Ipv6Addr ×ₗ U8) (p : Prefix) : Prefix :=
  { p with temps := p.temps ++ [(newTemp rng now (ofLex key).1 p).1] }

section Generator

variable {good : U64 → Prop} (closed : ∀ rng, good rng → good (nextRandom rng))

include closed

theorem acceptedIid_good (acceptable : U64 → Bool) (fuel : ℕ) {rng : U64} (initial : good rng) :
    good (acceptedIid acceptable fuel rng).2 := by
  have drawn : good (drawIid rng).2 := closed _ (closed _ initial)
  induction fuel generalizing rng with
  | zero => exact drawn
  | succ fuel ih =>
    rw [acceptedIid]
    split
    · exact drawn
    · exact ih drawn (closed _ (closed _ drawn))

theorem newTemp_good (now : ℕ) (prefixAddr : Ipv6Addr) (p : Prefix) {rng : U64} (initial : good rng) :
    good (newTemp rng now prefixAddr p).2 :=
  closed _ (acceptedIid_good closed _ _ initial)

/-- Adding temporary addresses touches only the generator and the prefixes chosen. -/
theorem foldl_regenerate (now : ℕ) (keys : List (Ipv6Addr ×ₗ U8)) (nodup : keys.Nodup) (e : Engine)
    (initial : good e.rng) :
    (∃ rng prefixes, good rng ∧ keys.foldl (regenerate now) e = { e with rng := rng, prefixes := prefixes }) ∧
      ∀ key, ∃ rng, good rng ∧ (keys.foldl (regenerate now) e).prefixes.lookup key =
        if key ∈ keys then (e.prefixes.lookup key).map (withTemp now rng key) else e.prefixes.lookup key := by
  induction keys generalizing e with
  | nil => exact ⟨⟨_, _, initial, rfl⟩, fun key => ⟨e.rng, initial, by simp⟩⟩
  | cons head rest ih =>
    obtain ⟨absent, nodup⟩ := List.nodup_cons.mp nodup
    rw [List.foldl_cons]
    cases found : e.prefixes.lookup head with
    | none =>
      have same : regenerate now e head = e := by simp only [regenerate, found]
      obtain ⟨frame, lookups⟩ := ih nodup e initial
      rw [same]
      refine ⟨frame, fun key => ?_⟩
      obtain ⟨rng, goodRng, looked⟩ := lookups key
      refine ⟨rng, goodRng, ?_⟩
      by_cases isHead : key = head
      · subst isHead
        rw [looked, found]
        simp
      · simpa [isHead] using looked
    | some p =>
      set next := regenerate now e head with nextEq
      have shape : next = { e with
          rng := (newTemp e.rng now (ofLex head).1 p).2
          prefixes := e.prefixes.modify head fun p' =>
            { p' with temps := p'.temps ++ [(newTemp e.rng now (ofLex head).1 p).1] } } := by
        simp only [nextEq, regenerate, found]
      have nextGood : good next.rng := by
        rw [shape]
        exact newTemp_good closed now _ p initial
      obtain ⟨⟨rng, prefixes, goodRng, frame⟩, lookups⟩ := ih nodup next nextGood
      refine ⟨⟨rng, prefixes, goodRng, by rw [frame, shape]⟩, fun key => ?_⟩
      have nextLookup : next.prefixes.lookup key =
          if key = head then (e.prefixes.lookup key).map (withTemp now e.rng head) else e.prefixes.lookup key := by
        rw [shape]
        simp only [SortedMap.lookup_modify]
        split_ifs with isHead
        · subst isHead
          simp [found, withTemp]
        · rfl
      by_cases isHead : key = head
      · subst isHead
        obtain ⟨_, _, looked⟩ := lookups key
        rw [if_neg absent] at looked
        exact ⟨e.rng, initial, by rw [looked, nextLookup]; simp⟩
      · obtain ⟨rng, goodRng, looked⟩ := lookups key
        rw [nextLookup, if_neg isHead] at looked
        exact ⟨rng, goodRng, by simpa [isHead] using looked⟩

end Generator

/-! ## One prefix -/

/-- A prefix without its ended temporary addresses. -/
def withoutEnded (now : ℕ) (p : Prefix) : Prefix :=
  { p with temps := p.temps.filter fun temp => decide (now < temp.validUntil) }

/-- What expiry makes of a prefix that it keeps. -/
def refreshed (config : Config) (now : ℕ) (rng : U64) (key : Ipv6Addr ×ₗ U8) (p : Prefix) : Prefix :=
  let kept := withoutEnded now p
  let renewed := if wantsTemp config now kept then withTemp now rng key kept else kept
  { renewed with temps := newestTemps renewed.temps }

section Refreshed

variable (config : Config) (now : ℕ) (rng : U64) (key : Ipv6Addr ×ₗ U8) (p : Prefix)

@[simp] theorem refreshed_validUntil : (refreshed config now rng key p).validUntil = p.validUntil := by
  unfold refreshed; dsimp only; split <;> rfl

@[simp] theorem refreshed_preferredUntil :
    (refreshed config now rng key p).preferredUntil = p.preferredUntil := by
  unfold refreshed; dsimp only; split <;> rfl

@[simp] theorem refreshed_stable : (refreshed config now rng key p).stable = p.stable := by
  unfold refreshed; dsimp only; split <;> rfl

end Refreshed

/-! ## The whole engine -/

theorem dropEnded_rng (e : Engine) (now : ℕ) : (e.dropEnded now).rng = e.rng := by
  unfold dropEnded; dsimp only; split <;> rfl

theorem dropEnded_config (e : Engine) (now : ℕ) : (e.dropEnded now).config = e.config := by
  unfold dropEnded; dsimp only; split <;> rfl

theorem dropEnded_prefixes (e : Engine) (now : ℕ) : (e.dropEnded now).prefixes =
    (e.prefixes.filter fun _ p => p.validUntil.all fun moment => decide (now < moment)).mapVal
      fun _ p => withoutEnded now p := by
  unfold dropEnded; dsimp only; split <;> rfl

theorem dropEnded_routers (e : Engine) (now : ℕ) :
    (e.dropEnded now).routers = e.routers.filter fun _ ends => decide (now < ends) := by
  unfold dropEnded; dsimp only; split <;> rfl

/-- Without a router left, the engine is soliciting. -/
theorem dropEnded_soliciting (e : Engine) (now : ℕ) (gone : (e.dropEnded now).routers.isEmpty = true) :
    (e.dropEnded now).solicitAt.isSome = true := by
  rw [dropEnded_routers] at gone
  unfold dropEnded
  dsimp only
  split
  · rfl
  · next waiting =>
    rw [gone, Bool.true_and, Bool.not_eq_true, Option.isNone_eq_false_iff] at waiting
    exact waiting

theorem mem_regenerated {e : Engine} {now : ℕ} {key : Ipv6Addr ×ₗ U8} :
    key ∈ e.regenerated now ↔ ∃ p, e.prefixes.lookup key = some p ∧ wantsTemp e.config now p = true := by
  simp only [regenerated, List.mem_map, List.mem_filter, SortedMap.lookup_eq_some_iff]
  constructor
  · rintro ⟨⟨_, p⟩, ⟨member, wants⟩, rfl⟩
    exact ⟨p, member, wants⟩
  · rintro ⟨p, member, wants⟩
    exact ⟨(key, p), ⟨member, wants⟩, rfl⟩

theorem regenerated_nodup (e : Engine) (now : ℕ) : (e.regenerated now).Nodup :=
  List.pairwise_map.mpr ((e.prefixes.sorted.imp ne_of_lt).filter _)

section Expire

variable {good : U64 → Prop} (closed : ∀ rng, good rng → good (nextRandom rng))

include closed

/-- Expiry keeps the prefixes that have not ended, refreshed, and nothing else. -/
theorem expire_lookup (e : Engine) (now : ℕ) (initial : good e.rng) (key : Ipv6Addr ×ₗ U8) :
    ∃ rng, good rng ∧ (e.expire now).prefixes.lookup key =
      ((e.prefixes.lookup key).filter fun p => p.validUntil.all fun moment => decide (now < moment)).map
        (refreshed e.config now rng key) := by
  obtain ⟨_, lookups⟩ := foldl_regenerate closed now ((e.dropEnded now).regenerated now)
    (regenerated_nodup _ now) (e.dropEnded now) (by rw [dropEnded_rng]; exact initial)
  obtain ⟨rng, goodRng, looked⟩ := lookups key
  refine ⟨rng, goodRng, ?_⟩
  have dropped : (e.dropEnded now).prefixes.lookup key =
      ((e.prefixes.lookup key).filter fun p => p.validUntil.all fun moment => decide (now < moment)).map
        (withoutEnded now) := by
    rw [dropEnded_prefixes, SortedMap.lookup_mapVal, SortedMap.lookup_filter]
  simp only [expire, SortedMap.lookup_mapVal, looked, mem_regenerated, dropEnded_config, dropped]
  cases (e.prefixes.lookup key).filter fun p => p.validUntil.all fun moment => decide (now < moment) with
  | none => simp
  | some p =>
    simp only [Option.map_some, Option.some.injEq, exists_eq_left', refreshed]
    split <;> rfl

theorem expire_rng (e : Engine) (now : ℕ) (initial : good e.rng) : good (e.expire now).rng := by
  obtain ⟨⟨rng, prefixes, goodRng, frame⟩, _⟩ := foldl_regenerate closed now
    ((e.dropEnded now).regenerated now) (regenerated_nodup _ now) (e.dropEnded now)
    (by rw [dropEnded_rng]; exact initial)
  simp only [expire, frame]
  exact goodRng

end Expire

/-- Expiry leaves all but the generator and the prefixes as dropping what has ended left them. -/
theorem expire_frame (e : Engine) (now : ℕ) :
    ∃ rng prefixes, e.expire now = { e.dropEnded now with rng := rng, prefixes := prefixes } := by
  obtain ⟨⟨rng, prefixes, _, frame⟩, _⟩ := foldl_regenerate (fun (_ : U64) (_ : True) => trivial) now
    ((e.dropEnded now).regenerated now) (regenerated_nodup _ now) (e.dropEnded now) trivial
  exact ⟨rng, prefixes.mapVal fun _ p => { p with temps := newestTemps p.temps },
    by simp only [expire, frame]⟩

/-! ## Nothing has ended -/

/-- An engine whose lifetimes were applied at `now`: nothing in it has ended, every prefix has the
temporary addresses it should have, and without a router it is soliciting. -/
structure Fresh (now : ℕ) (e : Engine) : Prop where
  expired : e.expiredAt = some now
  routers : ∀ entry ∈ e.routers.entries, now < entry.2
  soliciting : e.routers.isEmpty = true → e.solicitAt.isSome = true
  rdnss : ∀ entry ∈ e.rdnss.entries, Deadline.Ahead now entry.2
  dnssl : ∀ entry ∈ e.dnssl.entries, Deadline.Ahead now entry.2
  prefixes : ∀ entry ∈ e.prefixes.entries, Deadline.Ahead now entry.2.validUntil
  temps : ∀ entry ∈ e.prefixes.entries, ∀ temp ∈ entry.2.temps, now < temp.validUntil
  supplied : ∀ entry ∈ e.prefixes.entries, wantsTemp e.config now entry.2 = false
  few : ∀ entry ∈ e.prefixes.entries, entry.2.temps.length ≤ maxTemps

theorem clamp_gt {now cap : ℕ} (positive : 0 < cap) {limit : Option ℕ} (ahead : Deadline.Ahead now limit) :
    now < clamp now cap limit := by
  cases limit with
  | none => simp only [clamp]; omega
  | some limit =>
    rw [Deadline.ahead_some] at ahead
    simp only [clamp]
    omega

/-- A new temporary address of a live, preferred prefix is itself live and preferred. -/
theorem newTemp_live (rng : U64) {now : ℕ} (prefixAddr : Ipv6Addr) {p : Prefix}
    (valid : Deadline.Ahead now p.validUntil) :
    now < (newTemp rng now prefixAddr p).1.validUntil ∧
      (Deadline.Ahead now p.preferredUntil → now < (newTemp rng now prefixAddr p).1.preferredUntil) := by
  refine ⟨clamp_gt (by decide) valid, fun preferred => clamp_gt ?_ preferred⟩
  -- A desynchronisation of under ten minutes leaves most of a day.
  have desync := Nat.mod_lt (nextRandom (acceptedIid (fun iid =>
    !reservedIid iid && !p.taken (join prefixAddr iid)) generatorStates rng).2).toNat (y := 600) (by decide)
  simp only [tempPreferred, Duration.fromSecs]
  omega

theorem newestTemps_length (temps : List Temp) : (newestTemps temps).length ≤ maxTemps := by
  simp only [newestTemps, List.length_drop]
  omega

theorem newestTemps_subset {temps : List Temp} {temp : Temp} (member : temp ∈ newestTemps temps) :
    temp ∈ temps := List.mem_of_mem_drop member

/-- Cutting a list to its newest keeps the newest. -/
theorem newestTemps_getLast? (temps : List Temp) : (newestTemps temps).getLast? = temps.getLast? := by
  unfold newestTemps
  by_cases short : temps.length ≤ maxTemps
  · rw [Nat.sub_eq_zero_of_le short, List.drop_zero]
  · rw [List.getLast?_drop, if_neg (by simp only [maxTemps] at *; omega)]

theorem newestTemps_of_few {temps : List Temp} (few : temps.length ≤ maxTemps) : newestTemps temps = temps := by
  rw [newestTemps, Nat.sub_eq_zero_of_le few, List.drop_zero]

/-- A refreshed prefix has no ended temporary address and wants no other. -/
theorem refreshed_fresh (config : Config) {now : ℕ} (rng : U64) (key : Ipv6Addr ×ₗ U8) {p : Prefix}
    (valid : Deadline.Ahead now p.validUntil) :
    (∀ temp ∈ (refreshed config now rng key p).temps, now < temp.validUntil) ∧
      wantsTemp config now (refreshed config now rng key p) = false ∧
      (refreshed config now rng key p).temps.length ≤ maxTemps := by
  have kept : ∀ temp ∈ (withoutEnded now p).temps, now < temp.validUntil := fun temp member => by
    simpa using (List.mem_filter.mp member).2
  by_cases wants : wantsTemp config now (withoutEnded now p) = true
  · have preferred : Deadline.Ahead now p.preferredUntil := by
      simp only [wantsTemp, Bool.and_eq_true] at wants
      exact Deadline.all_eq_true_iff.mp wants.1.2
    obtain ⟨live, stillPreferred⟩ := newTemp_live rng (ofLex key).1 (p := withoutEnded now p) valid
    simp only [refreshed, wants, ↓reduceIte, withTemp]
    refine ⟨fun temp member => ?_, ?_, newestTemps_length _⟩
    · rcases List.mem_append.mp (newestTemps_subset member) with old | new
      · exact kept temp old
      · rw [List.mem_singleton.mp new]
        exact live
    · simp only [wantsTemp, newestTemps_getLast?, List.getLast?_concat, Option.any_some,
        decide_eq_true (stillPreferred preferred), Bool.not_true, Bool.and_false]
  · simp only [refreshed, wants, Bool.false_eq_true, ↓reduceIte]
    refine ⟨fun temp member => kept temp (newestTemps_subset member), ?_, newestTemps_length _⟩
    simpa only [wantsTemp, newestTemps_getLast?, Bool.not_eq_true] using wants

/-- Expiry leaves nothing ended behind, whatever it was given. -/
theorem expire_fresh (e : Engine) (now : ℕ) : (e.expire now).Fresh now := by
  obtain ⟨rng, prefixes, frame⟩ := e.expire_frame now
  have entryFresh : ∀ entry ∈ (e.expire now).prefixes.entries, ∃ p rng,
      Deadline.Ahead now p.validUntil ∧ entry.2 = refreshed e.config now rng entry.1 p := by
    rintro ⟨key, p⟩ member
    obtain ⟨rng, _, looked⟩ := expire_lookup (fun (_ : U64) (_ : True) => trivial) e now trivial key
    rw [(SortedMap.lookup_eq_some_iff _ _ _).mpr member] at looked
    obtain ⟨old, kept, rfl⟩ := Option.map_eq_some_iff.mp looked.symm
    exact ⟨old, rng, Deadline.all_eq_true_iff.mp (Option.filter_eq_some_iff.mp kept).2, rfl⟩
  have live {κ : Type} [LinearOrder κ] (map : SortedMap κ (Option ℕ)) :
      ∀ entry ∈ (map.filter fun _ ends => ends.all fun moment => decide (now < moment)).entries,
        Deadline.Ahead now entry.2 := fun entry member =>
    Deadline.all_eq_true_iff.mp (List.mem_filter.mp member).2
  refine ⟨?_, ?_, ?_, ?_, ?_, ?_, ?_, ?_, ?_⟩
  · rw [frame]
    unfold dropEnded; dsimp only; split <;> rfl
  · rw [frame]
    intro entry member
    rw [dropEnded_routers] at member
    simpa using (List.mem_filter.mp member).2
  · rw [frame]
    exact e.dropEnded_soliciting now
  · rw [frame]
    unfold dropEnded; dsimp only; split <;> exact live e.rdnss
  · rw [frame]
    unfold dropEnded; dsimp only; split <;> exact live e.dnssl
  · intro entry member
    obtain ⟨p, rng, valid, same⟩ := entryFresh entry member
    rw [same, refreshed_validUntil]
    exact valid
  · intro entry member
    obtain ⟨p, rng, valid, same⟩ := entryFresh entry member
    rw [same]
    exact (refreshed_fresh e.config rng entry.1 valid).1
  · intro entry member
    obtain ⟨p, rng, valid, same⟩ := entryFresh entry member
    rw [same, frame]
    simp only [dropEnded_config]
    exact (refreshed_fresh e.config rng entry.1 valid).2.1
  · intro entry member
    obtain ⟨p, rng, valid, same⟩ := entryFresh entry member
    rw [same]
    exact (refreshed_fresh e.config rng entry.1 valid).2.2

end Netd.Model.Ndp.Engine
