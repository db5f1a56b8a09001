import Netd.Proofs.Ndp.Soliciting
import Netd.Proofs.Ndp.Uniqueness

/-! # Temporary addresses

An operation drops temporary addresses of a prefix and adds one at most, and it adds one only when all
that stay have stopped being preferred. `Turnover` says so for one operation; over a run at instants that
do not go back, an address that is still preferred can then only be the one made last.
-/

namespace Netd.Model.Ndp.Engine

/-- The temporary addresses held for a prefix; none for one that is not stored. -/
def heldTemps (e : Engine) (key : Ipv6Addr ×ₗ U8) : List Temp := (e.prefixes.lookup key).elim [] Prefix.temps

theorem heldTemps_of_stored {e : Engine} {key : Ipv6Addr ×ₗ U8} {p : Prefix}
    (stored : e.prefixes.lookup key = some p) : e.heldTemps key = p.temps := by
  rw [heldTemps, stored, Option.elim_some]

theorem heldTemps_of_absent {e : Engine} {key : Ipv6Addr ×ₗ U8} (absent : e.prefixes.lookup key = none) :
    e.heldTemps key = [] := by
  rw [heldTemps, absent, Option.elim_none]

theorem heldTemps_congr {e other : Engine} (same : e.prefixes = other.prefixes) (key : Ipv6Addr ×ₗ U8) :
    e.heldTemps key = other.heldTemps key := by
  rw [heldTemps, same, heldTemps]

/-! ## One operation -/

/-- What an operation at `now` makes of the temporary addresses held for a prefix. -/
inductive Turnover (config : Config) (now : ℕ) (held : List Temp) : List Temp → Prop
  | kept {temps : List Temp} (fewer : temps.Sublist held) : Turnover config now held temps
  /-- A new one, when none of those that stay is preferred any more. -/
  | made {temps : List Temp} {temp : Temp} (wanted : config.temporary = true) (fewer : temps.Sublist held)
      (passed : ∀ old ∈ temps, old.preferredUntil ≤ now) (new : temp ∉ held) :
      Turnover config now held (temps ++ [temp])

/-- Every temporary address but the newest has stopped being preferred. -/
def Ordered (now : ℕ) (temps : List Temp) : Prop := temps.Pairwise fun older _ => older.preferredUntil ≤ now

theorem Ordered.mono {first second : ℕ} (le : first ≤ second) {temps : List Temp} (ordered : Ordered first temps) :
    Ordered second temps :=
  List.Pairwise.imp (fun passed => passed.trans le) ordered

theorem Ordered.sublist {now : ℕ} {temps fewer : List Temp} (ordered : Ordered now temps) (sub : fewer.Sublist temps) :
    Ordered now fewer :=
  List.Pairwise.sublist sub ordered

/-- When the newest has passed too, all have. -/
theorem Ordered.passed {now : ℕ} {temps : List Temp} (ordered : Ordered now temps)
    (newest : ∀ temp ∈ temps.getLast?, temp.preferredUntil ≤ now) : ∀ temp ∈ temps, temp.preferredUntil ≤ now := by
  obtain rfl | ⟨earlier, last, rfl⟩ := List.eq_nil_or_concat temps
  · exact fun temp member => nomatch member
  · rw [List.concat_eq_append] at *
    intro temp member
    rcases List.mem_append.mp member with old | new
    · exact (List.pairwise_append.mp ordered).2.2 temp old last (List.mem_singleton_self last)
    · rw [List.mem_singleton.mp new]
      exact newest last List.getLast?_concat

/-- The cut after an addition removes none but older ones. -/
theorem newestTemps_concat (temps : List Temp) (temp : Temp) :
    newestTemps (temps ++ [temp]) = temps.drop (temps.length + 1 - maxTemps) ++ [temp] := by
  unfold newestTemps
  rw [List.length_append, List.length_singleton, List.drop_append_of_le_length]
  simp only [maxTemps]
  omega

section Turnover

variable {sha1 : Bytes → BitVec 160} {config : Config}

/-- A new temporary address is none of those held, the ended ones included. -/
theorem newTemp_not_held {now : ℕ} {rng : U64} (nonzero : rng ≠ 0) {key : Ipv6Addr ×ₗ U8} {p : Prefix}
    (sound : PrefixSound sha1 config key p) (valid : Deadline.Ahead now p.validUntil) :
    (newTemp rng now (ofLex key).1 (withoutEnded now p)).1 ∉ p.temps := by
  intro held
  have few : (withoutEnded now p).temps.length ≤ maxTemps := (List.length_filter_le _ _).trans sound.few
  have live := (newTemp_live rng (ofLex key).1 (p := withoutEnded now p) valid).1
  obtain ⟨iid, address, -, free⟩ := newTemp_address nonzero now (ofLex key).1 few
  -- An ended one would have an earlier end, any other would have its address taken.
  have stays : (newTemp rng now (ofLex key).1 (withoutEnded now p)).1 ∈ (withoutEnded now p).temps :=
    List.mem_filter.mpr ⟨held, decide_eq_true live⟩
  have taken := taken_iff.mpr (List.mem_cons_of_mem (withoutEnded now p).stable
    (List.mem_map_of_mem (f := Temp.address) stays))
  rw [address, free] at taken
  contradiction

theorem refreshed_turnover {now : ℕ} {rng : U64} (nonzero : rng ≠ 0) {key : Ipv6Addr ×ₗ U8} {p : Prefix}
    (sound : PrefixSound sha1 config key p) (ordered : Ordered now p.temps)
    (valid : Deadline.Ahead now p.validUntil) :
    Turnover config now p.temps (refreshed config now rng key p).temps := by
  have fewer : (withoutEnded now p).temps.Sublist p.temps := List.filter_sublist
  have kept := ordered.sublist fewer
  by_cases wants : wantsTemp config now (withoutEnded now p) = true
  · simp only [refreshed, wants, ↓reduceIte, withTemp, newestTemps_concat]
    simp only [wantsTemp, Bool.and_eq_true, Bool.not_eq_true', Option.any_eq_false, decide_eq_false_iff_not,
      not_lt] at wants
    refine .made wants.1.1 ((List.drop_sublist _ _).trans fewer) (fun old member => ?_)
      (newTemp_not_held nonzero sound valid)
    exact kept.passed wants.2 old (List.mem_of_mem_drop member)
  · simp only [refreshed, wants, Bool.false_eq_true, ↓reduceIte]
    exact .kept ((List.drop_sublist _ _).trans fewer)

/-- Expiry leaves nothing of a prefix, or refreshes it. -/
theorem expire_heldTemps {e : Engine} (sound : e.Sound sha1 config) (now : ℕ) (key : Ipv6Addr ×ₗ U8) :
    (e.expire now).heldTemps key = [] ∨ ∃ rng p, rng ≠ 0 ∧ e.prefixes.lookup key = some p ∧
      Deadline.Ahead now p.validUntil ∧ (e.expire now).heldTemps key = (refreshed config now rng key p).temps := by
  obtain ⟨rng, nonzero, looked⟩ := expire_lookup nextRandom_ne_zero e now sound.rng key
  cases found : (e.prefixes.lookup key).filter fun p => p.validUntil.all fun moment => decide (now < moment) with
  | none =>
    rw [found, Option.map_none] at looked
    exact .inl (heldTemps_of_absent looked)
  | some p =>
    rw [found, Option.map_some, sound.config_eq] at looked
    obtain ⟨stored, ahead⟩ := Option.filter_eq_some_iff.mp found
    exact .inr ⟨rng, p, nonzero, stored, Deadline.all_eq_true_iff.mp ahead, heldTemps_of_stored looked⟩

theorem expire_turnover {e : Engine} (sound : e.Sound sha1 config) {now : ℕ} {key : Ipv6Addr ×ₗ U8}
    (ordered : Ordered now (e.heldTemps key)) :
    Turnover config now (e.heldTemps key) ((e.expire now).heldTemps key) := by
  obtain gone | ⟨rng, p, nonzero, stored, valid, refreshed⟩ := expire_heldTemps sound now key
  · rw [gone]
    exact .kept (List.nil_sublist _)
  · rw [heldTemps_of_stored stored] at ordered ⊢
    rw [refreshed]
    exact refreshed_turnover nonzero (sound.prefixes key p stored) ordered valid

/-- A temporary address made in the same operation is left alone. -/
theorem expire_just_made {e : Engine} (sound : e.Sound sha1 config) {now : ℕ} {key : Ipv6Addr ×ₗ U8} {temp : Temp}
    (held : e.heldTemps key = [temp]) (preferred : now < temp.preferredUntil) (valid : now < temp.validUntil) :
    (e.expire now).heldTemps key = [] ∨ (e.expire now).heldTemps key = [temp] := by
  obtain gone | ⟨rng, p, -, stored, -, after⟩ := expire_heldTemps sound now key
  · exact .inl gone
  · rw [heldTemps_of_stored stored] at held
    have kept : (withoutEnded now p).temps = [temp] := by simp [withoutEnded, held, valid]
    have wants : wantsTemp config now (withoutEnded now p) = false := by
      simp [wantsTemp, kept, preferred]
    refine .inr (after.trans ?_)
    simp only [refreshed, wants, Bool.false_eq_true, ↓reduceIte, kept]
    exact newestTemps_of_few (show 1 ≤ maxTemps by decide)

end Turnover

section Advertised

variable (sha1 : Bytes → BitVec 160)

/-- An option leaves the temporary addresses of a prefix alone, or forms the prefix with its first one. -/
theorem receivePrefix_heldTemps (now : ℕ) (e : Engine) (info : PrefixInfo) (key : Ipv6Addr ×ₗ U8) :
    (receivePrefix sha1 now e info).heldTemps key = e.heldTemps key ∨
      (e.config.temporary = true ∧ e.heldTemps key = [] ∧ ∃ temp,
        (receivePrefix sha1 now e info).heldTemps key = [temp] ∧ now < temp.preferredUntil ∧ now < temp.validUntil) := by
  unfold receivePrefix
  split
  · split
    · next p stored =>
      refine .inl ?_
      simp only [heldTemps, SortedMap.lookup_modify]
      split_ifs with same
      · subst same
        simp only [stored, Option.map_some, Option.elim_some]
      · rfl
    · next absent =>
      split
      · next lasting =>
        by_cases same : key = infoKey info
        · subst same
          rw [heldTemps_of_absent absent]
          dsimp only
          split
          · next wanted =>
            obtain ⟨valid, preferred⟩ := newTemp_live e.rng info.prefixAddr
              (p := formed sha1 e.config now info) (until_ahead now lasting)
            refine .inr ⟨wanted.1, rfl, _, ?_, preferred (until_ahead now wanted.2), valid⟩
            rw [heldTemps, SortedMap.lookup_insert_self, Option.elim_some, formed]
          · rw [heldTemps, SortedMap.lookup_insert_self, Option.elim_some]
            exact .inl rfl
        · refine .inl ?_
          dsimp only
          split
          all_goals simp only [heldTemps, SortedMap.lookup_insert, if_neg same]
      · exact .inl rfl
  · exact .inl rfl

theorem foldl_receivePrefix_heldTemps (now : ℕ) (infos : List PrefixInfo) (e : Engine) (key : Ipv6Addr ×ₗ U8) :
    (infos.foldl (receivePrefix sha1 now) e).heldTemps key = e.heldTemps key ∨
      (e.config.temporary = true ∧ e.heldTemps key = [] ∧ ∃ temp,
        (infos.foldl (receivePrefix sha1 now) e).heldTemps key = [temp] ∧
          now < temp.preferredUntil ∧ now < temp.validUntil) := by
  induction infos generalizing e with
  | nil => exact .inl rfl
  | cons info rest ih =>
    rw [List.foldl_cons]
    obtain ⟨rng, prefixes, frame⟩ := receivePrefix_frame sha1 now e info
    have config : (receivePrefix sha1 now e info).config = e.config := by rw [frame]
    obtain same | ⟨wanted, none, temp, formed, live⟩ := receivePrefix_heldTemps sha1 now e info key
    · rw [← config, ← same]
      exact ih _
    · obtain kept | ⟨-, empty, -⟩ := ih (receivePrefix sha1 now e info)
      · exact .inr ⟨wanted, none, temp, kept.trans formed, live⟩
      · rw [formed] at empty
        contradiction

variable {sha1} {config : Config}

theorem receive_turnover {e : Engine} (sound : e.Sound sha1 config) {now : ℕ} (source : Ipv6Addr) {body : Bytes}
    {ra : RouterAdvert} (decoded : RouterAdvert.decode body = some ra) {key : Ipv6Addr ×ₗ U8}
    (ordered : Ordered now (e.heldTemps key)) :
    Turnover config now (e.heldTemps key) ((e.receive sha1 now source body).1.heldTemps key) := by
  have after := advertised_sound now source ra sound
  obtain ⟨prefixes, -, sameConfig, -, -⟩ := e.receiveRouter_frame now source ra
  have folded := foldl_receivePrefix_heldTemps sha1 now ra.prefixes (e.receiveRouter now source ra) key
  rw [← heldTemps_congr (advertised_prefixes sha1 e now source ra), heldTemps_congr prefixes, sameConfig,
    sound.config_eq] at folded
  rw [heldTemps_congr (receive_prefixes sha1 e now source decoded)]
  obtain same | ⟨wanted, none, temp, made, preferred, valid⟩ := folded
  · rw [← same] at ordered ⊢
    exact expire_turnover after ordered
  · rw [none]
    obtain gone | stays := expire_just_made after made preferred valid
    · rw [gone]
      exact .kept (List.nil_sublist _)
    · rw [stays]
      exact .made wanted (List.nil_sublist _) (fun _ member => nomatch member) List.not_mem_nil

theorem next_turnover {e : Engine} (op : Op) (sound : e.Sound sha1 config) {key : Ipv6Addr ×ₗ U8}
    (ordered : Ordered op.time (e.heldTemps key)) :
    Turnover config op.time (e.heldTemps key) (((machine sha1).next e op).heldTemps key) := by
  cases op with
  | start now =>
    have begun : Sound sha1 config
        { e with solicits := 0, solicitInterval := Ndp.solicitInterval, solicitAt := some now } :=
      ⟨sound.config_eq, sound.rng, sound.prefixes⟩
    rw [next_start, start, heldTemps_congr (tick_prefixes _ now)]
    exact expire_turnover begun ordered
  | tick now =>
    rw [next_tick, heldTemps_congr (tick_prefixes e now)]
    exact expire_turnover sound ordered
  | receive now source body =>
    rw [next_receive]
    cases decoded : RouterAdvert.decode body with
    | none =>
      rw [receive_undecodable sha1 e now source decoded]
      exact .kept (List.Sublist.refl _)
    | some ra => exact receive_turnover sound source decoded ordered

end Advertised

/-! ## Whole runs -/

/-- The temporary addresses held after an operation and not before it. -/
def newlyHeld (held after : List Temp) : List Temp := after.filter fun temp => decide (temp ∉ held)

/-- The temporary addresses that some operations make for a prefix, in the order in which they do. -/
def madeTemps (sha1 : Bytes → BitVec 160) (key : Ipv6Addr ×ₗ U8) : Engine → List Op → List Temp
  | _, [] => []
  | e, op :: rest =>
    newlyHeld (e.heldTemps key) (((machine sha1).next e op).heldTemps key) ++
      madeTemps sha1 key ((machine sha1).next e op) rest

/-- What holds at `now` of the temporary addresses held for a prefix, given all that were made for it. -/
structure Aged (config : Config) (now : ℕ) (held made : List Temp) : Prop where
  ordered : Ordered now held
  newest : ∀ temp ∈ held, now < temp.preferredUntil → made.getLast? = some temp
  unwanted : config.temporary = false → held = []

theorem newlyHeld_of_sublist {held temps : List Temp} (fewer : temps.Sublist held) : newlyHeld held temps = [] := by
  apply List.filter_eq_nil_iff.mpr
  intro temp member
  simp [fewer.subset member]

theorem newlyHeld_concat {held temps : List Temp} (fewer : temps.Sublist held) {temp : Temp} (new : temp ∉ held) :
    newlyHeld held (temps ++ [temp]) = [temp] := by
  rw [newlyHeld, List.filter_append, ← newlyHeld, newlyHeld_of_sublist fewer]
  simp [new]

/-- One operation, not before the instant of the last. -/
theorem Aged.turnover {config : Config} {first second : ℕ} (le : first ≤ second) {held after made : List Temp}
    (aged : Aged config first held made) (turnover : Turnover config second held after) :
    Aged config second after (made ++ newlyHeld held after) := by
  cases turnover with
  | kept fewer =>
    rw [newlyHeld_of_sublist fewer, List.append_nil]
    refine ⟨(aged.ordered.sublist fewer).mono le, fun temp member preferred => ?_, fun off => ?_⟩
    · exact aged.newest temp (fewer.subset member) (le.trans_lt preferred)
    · exact List.sublist_nil.mp (aged.unwanted off ▸ fewer)
  | @made temps temp wanted fewer passed new =>
    rw [newlyHeld_concat fewer new]
    have kept := (aged.ordered.sublist fewer).mono le
    refine ⟨List.pairwise_append.mpr ⟨kept, List.pairwise_singleton _ _, fun old member _ _ => passed old member⟩,
      fun other member preferred => ?_, fun off => ?_⟩
    · rcases List.mem_append.mp member with old | last
      · exact absurd preferred (passed other old).not_gt
      · rw [List.mem_singleton.mp last, List.getLast?_concat]
    · rw [off] at wanted
      contradiction

section Runs

variable {sha1 : Bytes → BitVec 160} {config : Config}

theorem run_aged {s t : Engine × ℕ} {ops : List Op} {key : Ipv6Addr ×ₗ U8} {made : List Temp}
    (path : (timed sha1).Run (Transducer.OnTime Op.time) s ops t) (sound : s.1.Sound sha1 config)
    (aged : Aged config s.2 (s.1.heldTemps key) made) :
    Aged config t.2 (t.1.heldTemps key) (made ++ madeTemps sha1 key s.1 ops) := by
  induction path generalizing made with
  | nil _ => rw [madeTemps, List.append_nil]; exact aged
  | @cons s t op rest onTime _ ih =>
    rw [madeTemps, ← List.append_assoc]
    apply ih (next_sound s.1 op sound)
    have turnover := next_turnover op sound (aged.ordered.mono onTime)
    exact aged.turnover onTime turnover

theorem new_aged (key : Ipv6Addr ×ₗ U8) (now : ℕ) : Aged config now ((new config).heldTemps key) [] := by
  rw [heldTemps_of_absent (SortedMap.lookup_empty key)]
  exact ⟨.nil, (fun _ member => nomatch member), fun _ => rfl⟩

/-- The temporary addresses of every stored prefix, whatever the instant: few, all different, and none
where none are wanted. -/
structure TempsBounded (config : Config) (e : Engine) : Prop where
  few : ∀ key p, e.prefixes.lookup key = some p → p.temps.length ≤ maxTemps
  distinct : ∀ key p, e.prefixes.lookup key = some p → (p.stable :: p.temps.map Temp.address).Nodup
  unwanted : config.temporary = false → ∀ key p, e.prefixes.lookup key = some p → p.temps = []

/-- The temporary addresses of every stored prefix once lifetimes were applied at `now`: none has ended,
and of a preferred prefix exactly one is preferred, the last of those made for it. -/
structure TempsCurrent (config : Config) (now : ℕ) (made : Ipv6Addr ×ₗ U8 → List Temp) (e : Engine) : Prop where
  live : ∀ key p, e.prefixes.lookup key = some p → ∀ temp ∈ p.temps, now < temp.validUntil
  newest : config.temporary = true → ∀ key p, e.prefixes.lookup key = some p →
    Deadline.Ahead now p.preferredUntil → ∃ newest,
      p.temps.filter (fun temp => decide (now < temp.preferredUntil)) = [newest] ∧
      p.temps.getLast? = some newest ∧ (made key).getLast? = some newest

/-- The entry is within the lifetimes of the prefix. -/
def InTime (now : ℕ) (p : Prefix) (entry : DesiredAddress) : Prop :=
  Deadline.Ahead now p.validUntil ∧ (entry.deprecated = false → Deadline.Ahead now p.preferredUntil)

/-- A temporary address is listed within the lifetimes of its prefix. Should two stored prefixes with the
same first half hold the same address, those of one of the two. -/
def ListedInTime (e : Engine) : Prop := ∀ now key p, e.prefixes.lookup key = some p → ∀ temp ∈ p.temps,
  ∀ entry ∈ e.addresses now, entry.address = temp.address →
    InTime now p entry ∨ ∃ other p', other ≠ key ∧ network (ofLex other).1 = network (ofLex key).1 ∧
      e.prefixes.lookup other = some p' ∧ (∃ temp' ∈ p'.temps, temp'.address = temp.address) ∧ InTime now p' entry

theorem Sound.tempsBounded {e : Engine} (sound : e.Sound sha1 config)
    (unwanted : config.temporary = false → ∀ key, e.heldTemps key = []) : e.TempsBounded config where
  few := fun key p stored => (sound.prefixes key p stored).few
  distinct := fun key p stored => (sound.prefixes key p stored).nodup
  unwanted := fun off key _ stored => (heldTemps_of_stored stored).symm.trans (unwanted off key)

/-- A prefix lists nothing after its valid lifetime and nothing as preferred after its preferred one. -/
theorem prefixAddresses_inTime {now : ℕ} {length : U8} {p : Prefix} {entry : DesiredAddress}
    (listed : entry ∈ prefixAddresses now length p) : InTime now p entry := by
  unfold prefixAddresses at listed
  split at listed
  · contradiction
  · next notEnded =>
    rw [Deadline.any_eq_true_iff, not_not] at notEnded
    refine ⟨notEnded, fun current => ?_⟩
    by_contra ended
    have deprecated := Deadline.any_eq_true_iff.mpr ended
    rcases List.mem_cons.mp listed with rfl | temporary
    · rw [deprecated] at current
      contradiction
    · obtain ⟨temp, -, rfl⟩ := List.mem_map.mp temporary
      rw [deprecated, Bool.true_or] at current
      contradiction

theorem Sound.listedInTime {e : Engine} (sound : e.Sound sha1 config) : e.ListedInTime := by
  intro now key p stored temp held entry listed same
  obtain ⟨owner, p', stored', listed'⟩ := listed_origin listed
  have inTime := prefixAddresses_inTime listed'
  by_cases own : owner = key
  · subst own
    obtain rfl := Option.some.inj (stored'.symm.trans stored)
    exact .inl inTime
  · have soundOwn := sound.prefixes key p stored
    have soundOther := sound.prefixes owner p' stored'
    obtain ⟨iid, address, -⟩ := soundOwn.temps temp held
    have halves : network (ofLex owner).1 = network (ofLex key).1 := by
      rw [← network_of_listed soundOther listed', same, address, network_join]
    refine .inr ⟨owner, p', own, halves, stored', ?_, inTime⟩
    -- The stable addresses of the two are the same, and no temporary one is that.
    have member := (prefixAddresses_sublist now (ofLex owner).2 p').subset
      (List.mem_map_of_mem (f := fun entry : DesiredAddress => (entry.address, entry.prefixLength)) listed')
    obtain ⟨found, known, pair⟩ := List.mem_map.mp member
    obtain ⟨rfl, -⟩ := Prod.mk.inj pair
    rcases List.mem_cons.mp known with stable | temporary
    · rw [same, soundOther.stable, stableAddress_congr sha1 config halves, ← soundOwn.stable] at stable
      exact absurd (List.mem_map_of_mem held) (stable ▸ (List.nodup_cons.mp soundOwn.nodup).1)
    · obtain ⟨temp', within, address'⟩ := List.mem_map.mp temporary
      exact ⟨temp', within, address'.trans same⟩

/-- The newest is the only one that can still be preferred. -/
theorem Ordered.filter_preferred {now : ℕ} {temps : List Temp} (ordered : Ordered now temps) {newest : Temp}
    (last : temps.getLast? = some newest) (preferred : now < newest.preferredUntil) :
    temps.filter (fun temp => decide (now < temp.preferredUntil)) = [newest] := by
  obtain ⟨earlier, rfl⟩ := List.getLast?_eq_some_iff.mp last
  have passed := (List.pairwise_append.mp ordered).2.2
  have none : earlier.filter (fun temp => decide (now < temp.preferredUntil)) = [] := by
    apply List.filter_eq_nil_iff.mpr
    intro temp member
    have past := passed temp member newest (List.mem_singleton_self newest)
    simpa using past
  rw [List.filter_append, none, List.nil_append, List.filter_singleton, decide_eq_true preferred, cond_true]

theorem Fresh.tempsCurrent {e : Engine} {now : ℕ} {made : Ipv6Addr ×ₗ U8 → List Temp} (fresh : e.Fresh now)
    (config_eq : e.config = config) (aged : ∀ key, Aged config now (e.heldTemps key) (made key)) :
    e.TempsCurrent config now made where
  live := fun key p stored => fresh.temps (key, p) ((SortedMap.lookup_eq_some_iff _ _ _).mp stored)
  newest := by
    intro wanted key p stored preferred
    have supplied := fresh.supplied (key, p) ((SortedMap.lookup_eq_some_iff _ _ _).mp stored)
    rw [config_eq, wantsTemp, wanted, Deadline.all_eq_true_iff.mpr preferred, Bool.true_and, Bool.true_and,
      Bool.not_eq_false', Option.any_eq_true_iff_get] at supplied
    have aged := aged key
    rw [heldTemps_of_stored stored] at aged
    obtain ⟨some, ahead⟩ := supplied
    obtain ⟨newest, last⟩ := Option.isSome_iff_exists.mp some
    simp only [last, Option.get_some, decide_eq_true_eq] at ahead
    exact ⟨newest, aged.ordered.filter_preferred last ahead, last,
      aged.newest newest (List.mem_of_getLast? last) ahead⟩

theorem reached_aged {ops : List Op} {e : Engine} {now : ℕ}
    (path : (timed sha1).Run (Transducer.OnTime Op.time) (new config, 0) ops (e, now)) :
    e.Sound sha1 config ∧ e.Paced ∧
      ∀ key, Aged config now (e.heldTemps key) (madeTemps sha1 key (new config) ops) := by
  obtain rfl : e = (machine sha1).run (new config) ops := timed_run sha1 path
  have paced : ((machine sha1).run (new config) ops).Paced :=
    (machine sha1).run_invariant (fun e op => next_paced sha1 op) (new_paced config) ops
  exact ⟨reachable_sound config ops, paced, fun key => run_aged path (new_sound config) (new_aged key 0)⟩

variable (sha1)

/-- Over every run at instants that do not go back, a prefix has few temporary addresses, all different and
none when they are off, and none is listed past the prefix's lifetimes. After every operation that looks
at the clock, none has ended, and a preferred prefix has exactly one that is preferred: the last made. -/
theorem temporaries_kept (config : Config) :
    (∀ ops e now, (timed sha1).Run (Transducer.OnTime Op.time) (new config, 0) ops (e, now) →
      e.TempsBounded config ∧ e.ListedInTime) ∧
    ∀ ops op e now, (timed sha1).Run (Transducer.OnTime Op.time) (new config, 0) (ops ++ [op]) (e, now) →
      op.Heard → e.TempsCurrent config now fun key => madeTemps sha1 key (new config) (ops ++ [op]) := by
  refine ⟨fun ops e now path => ?_, fun ops op e now path heard => ?_⟩
  · obtain ⟨sound, -, aged⟩ := reached_aged path
    exact ⟨sound.tempsBounded fun off key => (aged key).unwanted off, sound.listedInTime⟩
  · obtain ⟨sound, -, aged⟩ := reached_aged path
    obtain ⟨⟨before, last⟩, earlier, step⟩ := Transducer.Run.append_iff.mp path
    obtain ⟨-, paced, -⟩ := reached_aged earlier
    cases step with
    | cons _ tail =>
      cases tail with
      | nil => exact (next_fresh sha1 heard paced).tempsCurrent sound.config_eq aged

end Runs

/-- An advertisement of 2001:db8::/64, valid for a day and preferred for four hours. -/
def dayLongAdvert : Bytes :=
  [134, 0, 0, 0, 64, 0, 0x07, 0x08, 0, 0, 0, 0, 0, 0, 0, 0] ++ prefixOption 0x20010db8000000000000000000000000

def privateConfig : Config := { clashConfig with temporary := true }

def fixedDigest : Bytes → BitVec 160 := fun _ => 0x0123456789abcdef0123456789abcdef01234567

def dayLongOps : List Op := [.start 0, .receive 0 0xfe800000000000000000000000000001 dayLongAdvert]

/-- A day later, a body that is no advertisement. -/
def emptyBody : Op := .receive (Duration.fromSecs 86400) 0xfe800000000000000000000000000001 []

/-- A body that is no advertisement is discarded before any lifetime is looked at: the temporary address
of the advertised prefix stays, though it has ended. -/
theorem discarded_body_keeps_ended :
    (((machine fixedDigest).run (new privateConfig) (dayLongOps ++ [emptyBody])).heldTemps
      (toLex (0x20010db8000000000000000000000000, 64))).map Temp.validUntil = [Duration.fromSecs 86400] ∧
    ¬ ∀ sha1 config ops op e now, (timed sha1).Run (Transducer.OnTime Op.time) (new config, 0) (ops ++ [op]) (e, now) →
      e.TempsCurrent config now fun key => madeTemps sha1 key (new config) (ops ++ [op]) := by
  have ended : (((machine fixedDigest).run (new privateConfig) (dayLongOps ++ [emptyBody])).heldTemps
      (toLex (0x20010db8000000000000000000000000, 64))).map Temp.validUntil = [Duration.fromSecs 86400] := by
    decide +kernel
  have path : (timed fixedDigest).Run (Transducer.OnTime Op.time) (new privateConfig, 0) (dayLongOps ++ [emptyBody])
      ((machine fixedDigest).run (new privateConfig) (dayLongOps ++ [emptyBody]), Duration.fromSecs 86400) :=
    .cons (Nat.zero_le _) (.cons (Nat.zero_le _) (.cons (Nat.zero_le _) (.nil _)))
  refine ⟨ended, fun current => ?_⟩
  have live := (current _ _ _ _ _ _ path).live (toLex (0x20010db8000000000000000000000000, 64))
  cases stored : ((machine fixedDigest).run (new privateConfig) (dayLongOps ++ [emptyBody])).prefixes.lookup
      (toLex (0x20010db8000000000000000000000000, 64)) with
  | none =>
    rw [heldTemps_of_absent stored] at ended
    contradiction
  | some p =>
    rw [heldTemps_of_stored stored] at ended
    have member : Duration.fromSecs 86400 ∈ p.temps.map Temp.validUntil := by
      rw [ended]
      exact List.mem_singleton_self _
    obtain ⟨temp, held, same⟩ := List.mem_map.mp member
    have later := live p stored temp held
    rw [same] at later
    exact lt_irrefl _ later

end Netd.Model.Ndp.Engine
