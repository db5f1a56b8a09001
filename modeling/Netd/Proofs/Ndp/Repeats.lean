import Netd.Math.Absorbing
import Netd.Proofs.Ndp.Ceilings
import Netd.Proofs.Ndp.Uniqueness

/-! # An advertisement heard twice

At one instant an advertisement that was received says nothing new. What it says of a prefix, a server or
a domain is a list of statements, of which the last counts: the two-hour rule keeps what an earlier
application left, and a prefix that was not there behaves like one that has just ended. What a receive
makes besides, a temporary address or a soliciting state, it finds made the second time.
-/

namespace Netd.Model.Ndp.Engine

/-! ## One lifetime -/

/-- What remains of a valid lifetime, as far as two hours. -/
def remaining (now : ℕ) : Option ℕ → ℕ
  | some ends => min (ends - now) twoHours
  | none => twoHours

theorem until_short (now : ℕ) {valid : U32} (short : Duration.fromSecs valid.toNat ≤ twoHours) :
    «until» now valid = some (now + Duration.fromSecs valid.toNat) := by
  rw [«until», if_neg]
  rintro rfl
  simp only [BitVec.toNat_allOnes, twoHours, Duration.fromSecs] at short
  omega

theorem nextValidUntil_long (now : ℕ) (validUntil : Option ℕ) {valid : U32}
    (long : twoHours < Duration.fromSecs valid.toNat) : nextValidUntil now validUntil valid = «until» now valid := by
  unfold nextValidUntil
  cases validUntil with
  | none => exact if_pos long
  | some ends => exact if_pos (.inl long)

/-- A lifetime of two hours at most extends what remains, or cuts it to two hours. -/
theorem nextValidUntil_short (now : ℕ) (validUntil : Option ℕ) {valid : U32}
    (short : Duration.fromSecs valid.toNat ≤ twoHours) : nextValidUntil now validUntil valid =
      some (now + max (Duration.fromSecs valid.toNat) (remaining now validUntil)) := by
  unfold nextValidUntil
  cases validUntil with
  | none =>
    dsimp only [Option.map_none, remaining]
    rw [if_neg (by omega), max_eq_right short]
  | some ends =>
    dsimp only [Option.map_some, remaining]
    rw [until_short now short]
    split_ifs <;> congr 1 <;> omega

theorem remaining_next (now : ℕ) (validUntil : Option ℕ) {valid : U32}
    (short : Duration.fromSecs valid.toNat ≤ twoHours) : remaining now (nextValidUntil now validUntil valid) =
      max (Duration.fromSecs valid.toNat) (remaining now validUntil) := by
  have most : remaining now validUntil ≤ twoHours := by
    cases validUntil with
    | none => exact le_rfl
    | some ends => exact min_le_right _ _
  rw [nextValidUntil_short now validUntil short]
  change min (now + _ - now) twoHours = _
  rw [Nat.add_sub_cancel_left]
  exact min_eq_left (max_le short most)

/-- The two-hour rule absorbs what was said before. -/
theorem nextValidUntil_absorbing (now : ℕ) : Absorbing (nextValidUntil now) where
  again validUntil valid := by
    by_cases long : twoHours < Duration.fromSecs valid.toNat
    · rw [nextValidUntil_long now _ long, nextValidUntil_long now _ long]
    · rw [nextValidUntil_short now _ (not_lt.mp long), remaining_next now _ (not_lt.mp long),
        nextValidUntil_short now _ (not_lt.mp long)]
      congr 1
      omega
  later validUntil valid between := by
    by_cases long : twoHours < Duration.fromSecs valid.toNat
    · rw [nextValidUntil_long now _ long, nextValidUntil_long now _ long]
    · have short := not_lt.mp long
      rw [nextValidUntil_short now _ short, nextValidUntil_short now (nextValidUntil now validUntil between) short]
      by_cases other : twoHours < Duration.fromSecs between.toNat
      · rw [nextValidUntil_long now _ other, nextValidUntil_long now _ other]
      · rw [remaining_next now _ (not_lt.mp other), remaining_next now _ (not_lt.mp other), remaining_next now _ short]
        congr 1
        omega

/-! ## One prefix -/

/-- The options that are about one prefix, in order. -/
def about (key : Ipv6Addr ×ₗ U8) (infos : List PrefixInfo) : List PrefixInfo :=
  infos.filter fun info => usable info && decide (infoKey info = key)

/-- A stored prefix after every option that names it. -/
def toldAll (now : ℕ) (infos : List PrefixInfo) (p : Prefix) : Prefix :=
  infos.foldl (fun p info => told now info p) p

theorem told_absorbing (now : ℕ) : Absorbing fun p info => told now info p where
  again p info := by
    simp only [told, (nextValidUntil_absorbing now).again]
  later p info between := by
    simp only [told, (nextValidUntil_absorbing now).later]

/-- An option leaves the temporary addresses alone, and does not look at them. -/
theorem toldAll_temps (now : ℕ) (infos : List PrefixInfo) (p : Prefix) (temps : List Temp) :
    toldAll now infos { p with temps := temps } = { toldAll now infos p with temps := temps } := by
  induction infos generalizing p with
  | nil => rfl
  | cons info rest ih => exact ih (told now info p)

theorem toldAll_append (now : ℕ) (infos : List PrefixInfo) (info : PrefixInfo) (p : Prefix) :
    toldAll now (infos ++ [info]) p = told now info (toldAll now infos p) := by
  rw [toldAll, List.foldl_append]
  rfl

theorem mem_about {key : Ipv6Addr ×ₗ U8} {infos : List PrefixInfo} {info : PrefixInfo} :
    info ∈ about key infos ↔ info ∈ infos ∧ usable info = true ∧ infoKey info = key := by
  rw [about, List.mem_filter, Bool.and_eq_true, decide_eq_true_eq]

theorem about_append (key : Ipv6Addr ×ₗ U8) (infos : List PrefixInfo) (info : PrefixInfo) :
    about key (infos ++ [info]) =
      if usable info = true ∧ infoKey info = key then about key infos ++ [info] else about key infos := by
  rw [about, List.filter_append]
  split_ifs with named
  · rw [List.filter_cons_of_pos (by simp [named])]
    rfl
  · rw [List.filter_cons_of_neg (by simpa using named)]
    exact List.append_nil _

/-- A lifetime of zero does not bring back what has just ended. -/
theorem nextValidUntil_zero (now : ℕ) : nextValidUntil now (some now) 0 = some now := by
  rw [nextValidUntil_short now _ (Nat.zero_le _)]
  change some (now + max (Duration.fromSecs 0) (min (now - now) twoHours)) = _
  rw [Nat.sub_self, Nat.zero_min]
  rfl

/-- What has just ended is not held against a new lifetime. -/
theorem nextValidUntil_ended (now : ℕ) (valid : U32) : nextValidUntil now (some now) valid = «until» now valid ∨
    valid = 0 := by
  by_cases zero : valid = 0
  · exact Or.inr zero
  · apply Or.inl
    by_cases long : twoHours < Duration.fromSecs valid.toNat
    · exact nextValidUntil_long now _ long
    · rw [nextValidUntil_short now _ (not_lt.mp long), until_short now (not_lt.mp long)]
      change some (now + max _ (min (now - now) twoHours)) = _
      rw [Nat.sub_self, Nat.zero_min, Nat.max_zero]

theorem toldAll_ended (now : ℕ) {infos : List PrefixInfo} (zero : ∀ info ∈ infos, info.valid = 0) {p : Prefix}
    (ended : p.validUntil = some now) : (toldAll now infos p).validUntil = some now ∧
      (toldAll now infos p).stable = p.stable ∧ (toldAll now infos p).temps = p.temps := by
  induction infos generalizing p with
  | nil => exact ⟨ended, rfl, rfl⟩
  | cons info rest ih =>
    have still : nextValidUntil now p.validUntil info.valid = some now := by
      rw [ended, zero info List.mem_cons_self, nextValidUntil_zero]
    exact ih (fun other member => zero other (List.mem_cons_of_mem _ member)) still

section Receive

variable (sha1 : Bytes → BitVec 160)

/-- Options that leave a prefix not stored said zero of it. -/
theorem about_absent (now : ℕ) {infos : List PrefixInfo} {e : Engine} {key : Ipv6Addr ×ₗ U8}
    (absent : (infos.foldl (receivePrefix sha1 now) e).prefixes.lookup key = none) :
    ∀ info ∈ about key infos, info.valid = 0 := by
  intro info member
  obtain ⟨among, isUsable, rfl⟩ := mem_about.mp member
  by_contra lasting
  obtain ⟨p, stored, -⟩ :=
    foldl_receivePrefix_forms sha1 now among ⟨isUsable, (BitVec.pos_iff_ne_zero _).mpr lasting⟩ e
  rw [absent] at stored
  contradiction

/-- After prefix options, a stored prefix is one that all of them were applied to. -/
theorem foldl_receivePrefix_about (now : ℕ) (infos : List PrefixInfo) {e : Engine} {key : Ipv6Addr ×ₗ U8} {p : Prefix}
    (stored : (infos.foldl (receivePrefix sha1 now) e).prefixes.lookup key = some p) :
    ∃ before, p = toldAll now (about key infos) before := by
  induction infos using List.reverseRecOn generalizing p with
  | nil => exact ⟨p, rfl⟩
  | append_singleton earlier info ih =>
    rw [List.foldl_append, List.foldl_cons, List.foldl_nil] at stored
    rw [about_append]
    have absent := @about_absent sha1 now earlier e key
    generalize earlier.foldl (receivePrefix sha1 now) e = middle at ih stored absent
    have told := receivePrefix_told sha1 now middle info key
    rw [stored] at told
    generalize found : some p = result at told
    cases told with
    | kept other =>
      split_ifs with named
      · rw [(other named.1 named.2.symm).1] at found
        contradiction
      · exact ih found.symm
    | updated isUsable same was =>
      obtain ⟨before, rfl⟩ := ih was
      refine ⟨before, ?_⟩
      rw [if_pos ⟨isUsable, same.symm⟩, toldAll_append]
      exact Option.some.inj found
    | @formed temps isUsable same none lasting temporary =>
      -- The prefix was not there, as if it had ended now: what was said of it before was zero.
      let before : Prefix := { formed sha1 middle.config now info with temps := temps, validUntil := some now }
      obtain ⟨ended, stable, kept⟩ := toldAll_ended now (absent none) (show before.validUntil = some now from rfl)
      refine ⟨before, ?_⟩
      rw [if_pos ⟨isUsable, same.symm⟩, toldAll_append, Option.some.inj found, Engine.told, ended, stable, kept]
      obtain new | zero := nextValidUntil_ended now info.valid
      · rw [new]
        rfl
      · rw [zero] at lasting
        contradiction

/-- An option about a stored prefix, or one that says zero, forms nothing. -/
theorem receivePrefix_known (now : ℕ) {e : Engine} {info : PrefixInfo}
    (known : usable info = true → e.prefixes.lookup (infoKey info) = none → info.valid = 0) :
    (receivePrefix sha1 now e info).rng = e.rng ∧
      ∀ key, (receivePrefix sha1 now e info).prefixes.lookup key = (e.prefixes.lookup key).map fun p =>
        toldAll now (about key [info]) p := by
  have other {key : Ipv6Addr ×ₗ U8} (apart : ¬(usable info = true ∧ infoKey info = key)) : about key [info] = [] := by
    rw [← List.nil_append [info], about_append, if_neg apart]
    rfl
  have one (isUsable : usable info = true) : about (infoKey info) [info] = [info] := by
    rw [← List.nil_append [info], about_append, if_pos ⟨isUsable, rfl⟩]
    rfl
  unfold receivePrefix
  split
  · next isUsable =>
    split
    · next p stored =>
      refine ⟨rfl, fun key => ?_⟩
      dsimp only
      rw [SortedMap.lookup_modify]
      split_ifs with same
      · rw [same, one isUsable]
        rfl
      · rw [other fun both => same both.2.symm]
        exact Option.map_id'.symm
    · next absent =>
      have zero := known isUsable absent
      rw [zero, if_neg (by decide)]
      refine ⟨rfl, fun key => ?_⟩
      by_cases same : infoKey info = key
      · rw [← same, absent]
        rfl
      · rw [other fun both => same both.2]
        exact Option.map_id'.symm
  · next useless =>
    refine ⟨rfl, fun key => ?_⟩
    rw [other fun both => useless both.1]
    exact Option.map_id'.symm

theorem foldl_receivePrefix_known (now : ℕ) (infos : List PrefixInfo) {e : Engine}
    (known : ∀ info ∈ infos, usable info = true → e.prefixes.lookup (infoKey info) = none → info.valid = 0) :
    (infos.foldl (receivePrefix sha1 now) e).rng = e.rng ∧
      ∀ key, (infos.foldl (receivePrefix sha1 now) e).prefixes.lookup key = (e.prefixes.lookup key).map fun p =>
        toldAll now (about key infos) p := by
  induction infos generalizing e with
  | nil => exact ⟨rfl, fun key => Option.map_id'.symm⟩
  | cons info rest ih =>
    obtain ⟨rng, looked⟩ := receivePrefix_known sha1 now (known info List.mem_cons_self)
    have knownNext : ∀ other ∈ rest, usable other = true →
        (receivePrefix sha1 now e info).prefixes.lookup (infoKey other) = none → other.valid = 0 := by
      intro other member isUsable absent
      rw [looked, Option.map_eq_none_iff] at absent
      exact known other (List.mem_cons_of_mem _ member) isUsable absent
    obtain ⟨rngs, lookups⟩ := ih knownNext
    refine ⟨rngs.trans rng, fun key => ?_⟩
    rw [List.foldl_cons, lookups, looked, Option.map_map]
    refine congrArg (fun f => Option.map f _) (funext fun p => ?_)
    rw [Function.comp_apply, toldAll, toldAll, ← List.foldl_append, toldAll, about, about, about, ← List.filter_append]
    rfl

/-- Options that have been applied to all that is stored, and say zero of all that is not, are of no effect. -/
theorem foldl_receivePrefix_again (now : ℕ) (infos : List PrefixInfo) {e : Engine}
    (known : ∀ info ∈ infos, usable info = true → e.prefixes.lookup (infoKey info) = none → info.valid = 0)
    (applied : ∀ key p, e.prefixes.lookup key = some p → toldAll now (about key infos) p = p) :
    infos.foldl (receivePrefix sha1 now) e = e := by
  obtain ⟨rng, lookups⟩ := foldl_receivePrefix_known sha1 now infos known
  obtain ⟨rng', prefixes, frame⟩ := foldl_receivePrefix_frame sha1 now infos e
  rw [frame] at rng lookups ⊢
  have same : prefixes = e.prefixes := by
    apply SortedMap.ext_lookup
    intro key
    rw [lookups key]
    cases stored : e.prefixes.lookup key with
    | none => rfl
    | some p => rw [Option.map_some, applied key p stored]
  dsimp only at rng
  rw [rng, same]

end Receive

/-! ## Statements with a lifetime -/

section Statements

variable {κ : Type} [LinearOrder κ] (now : ℕ)

theorem lookup_stated (lifetime : U32) (map : SortedMap κ (Option ℕ)) (key other : κ) :
    (stated now lifetime map key).lookup other =
      if other = key then (if lifetime = 0 then none else some («until» now lifetime)) else map.lookup other := by
  rw [stated]
  split_ifs with zero same same
  · rw [SortedMap.lookup_erase, if_pos same]
  · rw [SortedMap.lookup_erase, if_neg same]
  · rw [SortedMap.lookup_insert, if_pos same]
  · rw [SortedMap.lookup_insert, if_neg same]

theorem stated_absorbing :
    Absorbing fun (map : SortedMap κ (Option ℕ)) (statement : U32 × κ) => stated now statement.1 map statement.2 where
  again map statement := by
    apply SortedMap.ext_lookup
    intro key
    simp only [lookup_stated]
    split_ifs <;> rfl
  later map statement between := by
    apply SortedMap.ext_lookup
    intro key
    simp only [lookup_stated]
    split_ifs <;> rfl

/-- What is stated with a lifetime has not ended. -/
theorem filter_stated (lifetime : U32) (map : SortedMap κ (Option ℕ)) (key : κ) :
    stated now lifetime (map.filter fun _ ends => ends.all fun moment => decide (now < moment)) key =
      (stated now lifetime map key).filter fun _ ends => ends.all fun moment => decide (now < moment) := by
  apply SortedMap.ext_lookup
  intro other
  rw [SortedMap.lookup_filter, lookup_stated, lookup_stated, SortedMap.lookup_filter]
  split_ifs with same zero
  · rfl
  · have ahead := until_ahead now ((BitVec.pos_iff_ne_zero lifetime).mpr zero)
    exact (Option.filter_eq_some_iff.mpr ⟨rfl, Deadline.all_eq_true_iff.mpr ahead⟩).symm
  · rfl

/-- Statements, each with its lifetime, one after another. -/
theorem foldl_stated_eq {α : Type} (lifetime : α → U32) (keys : α → List κ) (items : List α)
    (map : SortedMap κ (Option ℕ)) :
    items.foldl (fun map item => (keys item).foldl (stated now (lifetime item)) map) map =
      (items.flatMap fun item => (keys item).map fun key => (lifetime item, key)).foldl
        (fun map statement => stated now statement.1 map statement.2) map := by
  rw [List.foldl_flatMap]
  simp only [List.foldl_map]

/-- What was stated and has not ended says nothing new. -/
theorem foldl_stated_again {α : Type} (lifetime : α → U32) (keys : α → List κ) (items : List α)
    (map : SortedMap κ (Option ℕ)) :
    items.foldl (fun map item => (keys item).foldl (stated now (lifetime item)) map)
        ((items.foldl (fun map item => (keys item).foldl (stated now (lifetime item)) map) map).filter
          fun _ ends => ends.all fun moment => decide (now < moment)) =
      (items.foldl (fun map item => (keys item).foldl (stated now (lifetime item)) map) map).filter
        fun _ ends => ends.all fun moment => decide (now < moment) := by
  rw [foldl_stated_eq, foldl_stated_eq]
  generalize (items.flatMap fun item => (keys item).map fun key => (lifetime item, key)) = statements
  have within (map : SortedMap κ (Option ℕ)) :
      statements.foldl (fun map statement => stated now statement.1 map statement.2)
          (map.filter fun _ ends => ends.all fun moment => decide (now < moment)) =
        (statements.foldl (fun map statement => stated now statement.1 map statement.2) map).filter
          fun _ ends => ends.all fun moment => decide (now < moment) :=
    List.foldl_hom (fun map : SortedMap κ (Option ℕ) => map.filter fun _ ends => ends.all fun moment =>
      decide (now < moment)) fun map statement => filter_stated now statement.1 map statement.2
  rw [within, (stated_absorbing now).foldl_again]

end Statements

/-! ## The whole advertisement -/

theorem refreshed_eq (config : Config) (now : ℕ) (rng : U64) (key : Ipv6Addr ×ₗ U8) (p : Prefix) :
    refreshed config now rng key p = { p with temps := (refreshed config now rng key p).temps } := by
  unfold refreshed; dsimp only; split <;> rfl

/-- Expiry forgets neither the MTU nor that DHCPv6 was wanted. -/
theorem expire_latched (e : Engine) (now : ℕ) :
    (e.expire now).mtu = e.mtu ∧ (e.expire now).dhcp6Wanted = e.dhcp6Wanted := by
  obtain ⟨rng, prefixes, frame⟩ := e.expire_frame now
  rw [frame]
  unfold dropEnded; dsimp only; split <;> exact ⟨rfl, rfl⟩

/-- A router that is stored as it says leaves an engine that has stopped soliciting as it is; so does one that is
not stored and says zero. -/
theorem receiveRouter_self {e : Engine} {now : ℕ} {source : Ipv6Addr} {ra : RouterAdvert}
    (stays : 0 < ra.routerLifetime → e.solicitAt = none ∧
      e.routers.lookup source = some (now + Duration.fromSecs ra.routerLifetime.toNat))
    (gone : ¬0 < ra.routerLifetime → e.routers.lookup source = none) (mtu : ra.mtu.or e.mtu = e.mtu)
    (wanted : (e.dhcp6Wanted || ra.managed || ra.otherConfig) = e.dhcp6Wanted) :
    e.receiveRouter now source ra = e := by
  unfold receiveRouter
  dsimp only
  split
  · next lasting =>
    obtain ⟨silent, stored⟩ := stays lasting
    have same : e.routers.insert source (now + Duration.fromSecs ra.routerLifetime.toNat) = e.routers := by
      apply SortedMap.ext_lookup
      intro other
      rw [SortedMap.lookup_insert]
      split_ifs with equal
      · rw [equal, stored]
      · rfl
    rw [same, mtu, wanted, ← silent]
  · next zero =>
    have same : e.routers.erase source = e.routers := by
      apply SortedMap.ext_lookup
      intro other
      rw [SortedMap.lookup_erase]
      split_ifs with equal
      · rw [equal, gone zero]
      · rfl
    rw [same, mtu, wanted]

section Again

variable (sha1 : Bytes → BitVec 160) (e : Engine) (now : ℕ) (source : Ipv6Addr) {body : Bytes} {ra : RouterAdvert}
  (decoded : RouterAdvert.decode body = some ra)

include decoded

theorem receive_eq : (e.receive sha1 now source body).1 =
    { (e.advertised sha1 now source ra).expire now with
      lastView := ((e.advertised sha1 now source ra).expire now).view now } := by
  simp only [receive, decoded, emitIfChanged_fst]

theorem receive_fresh : (e.receive sha1 now source body).1.Fresh now := by
  rw [receive_eq sha1 e now source decoded]
  exact ((e.advertised sha1 now source ra).expire_fresh now).seen _

theorem receive_seen :
    (e.receive sha1 now source body).1.view now = (e.receive sha1 now source body).1.lastView := by
  rw [receive_eq sha1 e now source decoded]
  exact view_seen _ now _

theorem receive_statements :
    (e.receive sha1 now source body).1.rdnss =
        (ra.rdnss.foldl (fun map r => r.servers.foldl (stated now r.lifetime) map) e.rdnss).filter
          (fun _ ends => ends.all fun moment => decide (now < moment)) ∧
      (e.receive sha1 now source body).1.dnssl =
        (ra.dnssl.foldl (fun map d => d.domains.foldl (stated now d.lifetime) map) e.dnssl).filter
          (fun _ ends => ends.all fun moment => decide (now < moment)) ∧
      (e.receive sha1 now source body).1.mtu = ra.mtu.or e.mtu ∧
      (e.receive sha1 now source body).1.dhcp6Wanted = (e.dhcp6Wanted || ra.managed || ra.otherConfig) := by
  obtain ⟨rdnss, dnssl, mtu, wanted⟩ := e.advertised_rest sha1 now source ra
  obtain ⟨expiredMtu, expiredWanted⟩ := (e.advertised sha1 now source ra).expire_latched now
  have expiredRdnss := (e.advertised sha1 now source ra).expire_rdnss now
  have expiredDnssl := (e.advertised sha1 now source ra).expire_dnssl now
  rw [receive_eq sha1 e now source decoded, ← rdnss, ← dnssl, ← mtu, ← wanted]
  generalize (e.advertised sha1 now source ra).expire now = after at expiredRdnss expiredDnssl expiredMtu expiredWanted
  exact ⟨expiredRdnss, expiredDnssl, expiredMtu, expiredWanted⟩

/-- What the router said of itself was taken over. -/
theorem receiveRouter_again :
    (e.receive sha1 now source body).1.receiveRouter now source ra = (e.receive sha1 now source body).1 := by
  obtain ⟨-, -, mtu, wanted⟩ := receive_statements sha1 e now source decoded
  obtain ⟨routers, schedule, -⟩ := receive_schedule sha1 e now source decoded
  obtain ⟨toldRouters, toldSchedule⟩ := e.advertised_schedule sha1 now source ra
  rw [expire_routers, toldRouters] at routers
  apply receiveRouter_self
  · intro lasting
    obtain ⟨-, silent, inserted⟩ | ⟨zero, -⟩ := e.receiveRouter_schedule now source ra
    · have stays := receive_router sha1 e now source decoded lasting
      constructor
      · rw [(receive_schedule sha1 e now source decoded).1] at stays
        rw [expire_schedule, if_neg (fun both => Bool.false_ne_true (stays.symm.trans both.1)), toldSchedule] at schedule
        exact (solicitAt_congr schedule).trans silent
      · have positive : 0 < Duration.fromSecs ra.routerLifetime.toNat := Nat.mul_pos lasting (by decide)
        rw [routers, inserted, SortedMap.lookup_filter, SortedMap.lookup_insert_self]
        exact Option.filter_eq_some_iff.mpr ⟨rfl, decide_eq_true (by omega)⟩
    · exact absurd lasting zero
  · intro zero
    obtain ⟨lasting, -⟩ | ⟨-, -, erased⟩ := e.receiveRouter_schedule now source ra
    · exact absurd lasting zero
    · rw [routers, erased, SortedMap.lookup_filter, SortedMap.lookup_erase, if_pos rfl]
      rfl
  · rw [mtu]
    cases ra.mtu <;> rfl
  · rw [wanted]
    cases e.dhcp6Wanted <;> cases ra.managed <;> cases ra.otherConfig <;> rfl

/-- What was said of the prefixes was taken over. -/
theorem foldl_receivePrefix_receive :
    ra.prefixes.foldl (receivePrefix sha1 now) (e.receive sha1 now source body).1 =
      (e.receive sha1 now source body).1 := by
  apply foldl_receivePrefix_again
  · intro info member isUsable absent
    by_contra lasting
    have forms : Forms info := ⟨isUsable, (BitVec.pos_iff_ne_zero _).mpr lasting⟩
    obtain ⟨p, stored⟩ :=
      (receive_alive_iff sha1 e now source decoded (infoKey info)).mpr (.inr ⟨info, member, forms, rfl⟩)
    rw [absent] at stored
    contradiction
  · intro key p stored
    obtain ⟨rng, -, looked⟩ := expire_lookup (fun (_ : U64) (_ : True) => trivial) (e.advertised sha1 now source ra)
      now trivial key
    rw [receive_prefixes sha1 e now source decoded, looked] at stored
    obtain ⟨old, kept, rfl⟩ := Option.map_eq_some_iff.mp stored
    obtain ⟨before, rfl⟩ := foldl_receivePrefix_about sha1 now ra.prefixes (Option.filter_eq_some_iff.mp kept).1
    have twice : toldAll now (about key ra.prefixes) (toldAll now (about key ra.prefixes) before) =
        toldAll now (about key ra.prefixes) before := (told_absorbing now).foldl_again _ before
    rw [refreshed_eq, toldAll_temps, twice]

theorem advertised_again :
    (e.receive sha1 now source body).1.advertised sha1 now source ra = (e.receive sha1 now source body).1 := by
  obtain ⟨rdnss, dnssl, -⟩ := receive_statements sha1 e now source decoded
  rw [advertised, receiveRouter_again sha1 e now source decoded, foldl_receivePrefix_receive sha1 e now source decoded]
  rw [rdnss, dnssl, foldl_stated_again now Rdnss.lifetime Rdnss.servers,
    foldl_stated_again now Dnssl.lifetime Dnssl.domains, ← rdnss, ← dnssl]

end Again

/-- An advertisement heard again at the same instant changes nothing and asks for nothing. -/
theorem receive_again (sha1 : Bytes → BitVec 160) (e : Engine) (now : ℕ) (source : Ipv6Addr) (body : Bytes) :
    (e.receive sha1 now source body).1.receive sha1 now source body = ((e.receive sha1 now source body).1, []) := by
  cases decoded : RouterAdvert.decode body with
  | none => rw [receive_undecodable sha1 e now source decoded, receive_undecodable sha1 e now source decoded]
  | some ra =>
    have again := advertised_again sha1 e now source decoded
    have fresh := receive_fresh sha1 e now source decoded
    have seen := receive_seen sha1 e now source decoded
    generalize (e.receive sha1 now source body).1 = after at again fresh seen
    simp only [receive, decoded, again, fresh.expire_self]
    rw [emitIfChanged, if_neg (not_not.mpr seen)]

end Netd.Model.Ndp.Engine
