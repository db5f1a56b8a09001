import Netd.Proofs.Ndp.Adverts
import Netd.Proofs.Ndp.Punctual

/-! # The two-hour rule over whole runs

An advertisement is not authenticated, so it may lengthen the valid lifetime of a prefix but not cut
what remains below two hours. One option obeys that by arithmetic; options, advertisements and
sequences of them obey it because the bound `min (end, now + 2 h)` only moves forward with the clock.
-/

namespace Netd.Model.Ndp.Engine

open Deadline (ending)

section Rule

variable (sha1 : Bytes → BitVec 160)

/-- What the options of one advertisement at `now` may make of a stored prefix. -/
structure Extended (now : ℕ) (infos : List PrefixInfo) (key : Ipv6Addr ×ₗ U8) (before after : Prefix) : Prop where
  stable : after.stable = before.stable
  least : min (ending before.validUntil) (WithTop.some (now + twoHours)) ≤ ending after.validUntil
  most : ending after.validUntil ≤ ending before.validUntil ∨
    ∃ info ∈ infos, infoKey info = key ∧ ending after.validUntil ≤ ending («until» now info.valid)

theorem Extended.refl (now : ℕ) (infos : List PrefixInfo) (key : Ipv6Addr ×ₗ U8) (p : Prefix) :
    Extended now infos key p p := ⟨rfl, min_le_left .., .inl le_rfl⟩

theorem Extended.told (now : ℕ) (info : PrefixInfo) (rest : List PrefixInfo) {p after : Prefix}
    (extended : Extended now rest (infoKey info) (told now info p) after) :
    Extended now (info :: rest) (infoKey info) p after := by
  obtain ⟨least, most⟩ := nextValidUntil_bounds now p.validUntil info.valid
  refine ⟨extended.stable, (le_min least (min_le_right ..)).trans extended.least, ?_⟩
  rcases extended.most with older | ⟨received, member, same, bound⟩
  · rcases le_max_iff.mp most with old | new
    · exact .inl (older.trans old)
    · exact .inr ⟨info, List.mem_cons_self, rfl, older.trans new⟩
  · exact .inr ⟨received, List.mem_cons_of_mem _ member, same, bound⟩

theorem Extended.skip {now : ℕ} {info : PrefixInfo} {rest : List PrefixInfo} {key : Ipv6Addr ×ₗ U8}
    {p after : Prefix} (extended : Extended now rest key p after) : Extended now (info :: rest) key p after :=
  ⟨extended.stable, extended.least, extended.most.imp_right fun ⟨received, member, same, bound⟩ =>
    ⟨received, List.mem_cons_of_mem _ member, same, bound⟩⟩

/-- Options never remove a stored prefix, and bound its new end. -/
theorem foldl_receivePrefix_extended (now : ℕ) (infos : List PrefixInfo) {e : Engine}
    {key : Ipv6Addr ×ₗ U8} {p : Prefix} (stored : e.prefixes.lookup key = some p) :
    ∃ after, (infos.foldl (receivePrefix sha1 now) e).prefixes.lookup key = some after ∧
      Extended now infos key p after := by
  induction infos generalizing e p with
  | nil => exact ⟨p, stored, .refl ..⟩
  | cons info rest ih =>
    rw [List.foldl_cons]
    have move := receivePrefix_told sha1 now e info key
    generalize found : (receivePrefix sha1 now e info).prefixes.lookup key = next at move
    cases move with
    | kept _ =>
      obtain ⟨after, looked, extended⟩ := ih (found.trans stored)
      exact ⟨after, looked, extended.skip⟩
    | updated _ same held =>
      obtain rfl := Option.some.inj (stored.symm.trans held)
      obtain ⟨after, looked, extended⟩ := ih found
      subst same
      exact ⟨after, looked, .told now info rest extended⟩
    | formed _ _ absent =>
      rw [stored] at absent
      contradiction

/-- The prefixes after everything an advertisement said, before lifetimes are applied. -/
theorem advertised_prefixes (e : Engine) (now : ℕ) (source : Ipv6Addr) (ra : RouterAdvert) :
    (e.advertised sha1 now source ra).prefixes =
      (ra.prefixes.foldl (receivePrefix sha1 now) (e.receiveRouter now source ra)).prefixes := rfl

theorem ahead_iff_all {now : ℕ} {p : Prefix} :
    (p.validUntil.all fun moment => decide (now < moment)) = true ↔ WithTop.some now < ending p.validUntil :=
  Deadline.all_eq_true_iff.trans Deadline.ahead_iff_lt_ending

/-- Expiry keeps a prefix whose end is ahead, with its end and its stable address. -/
theorem expire_keeps (e : Engine) {now : ℕ} {key : Ipv6Addr ×ₗ U8} {p : Prefix}
    (stored : e.prefixes.lookup key = some p) (ahead : WithTop.some now < ending p.validUntil) :
    ∃ after, (e.expire now).prefixes.lookup key = some after ∧ after.stable = p.stable ∧
      after.validUntil = p.validUntil := by
  obtain ⟨rng, _, looked⟩ := expire_lookup (fun (_ : U64) (_ : True) => trivial) e now trivial key
  rw [stored, Option.filter_some, if_pos (ahead_iff_all.mpr ahead), Option.map_some] at looked
  exact ⟨_, looked, refreshed_stable .., refreshed_validUntil ..⟩

/-- Expiry removes a prefix that has ended. -/
theorem expire_removes (e : Engine) {now : ℕ} {key : Ipv6Addr ×ₗ U8} {p : Prefix}
    (stored : e.prefixes.lookup key = some p) (ended : ¬ WithTop.some now < ending p.validUntil) :
    (e.expire now).prefixes.lookup key = none := by
  obtain ⟨rng, _, looked⟩ := expire_lookup (fun (_ : U64) (_ : True) => trivial) e now trivial key
  rw [stored, Option.filter_some, if_neg (fun all => ended (ahead_iff_all.mp all)), Option.map_none] at looked
  exact looked

theorem receive_prefixes (e : Engine) (now : ℕ) (source : Ipv6Addr) {body : Bytes} {ra : RouterAdvert}
    (decoded : RouterAdvert.decode body = some ra) : (e.receive sha1 now source body).1.prefixes =
      ((e.advertised sha1 now source ra).expire now).prefixes := by
  simp only [receive, decoded, emitIfChanged_fst]

theorem tick_prefixes (e : Engine) (now : ℕ) : (e.tick now).1.prefixes = (e.expire now).prefixes := by
  rw [tick, emitIfChanged_fst]
  unfold solicitDue
  dsimp only
  repeat' split
  all_goals rfl

/-- One advertisement at `now`: the prefix stays, its new end within bounds, or it had ended. -/
theorem receive_extended (e : Engine) (now : ℕ) (source : Ipv6Addr) {body : Bytes} {ra : RouterAdvert}
    (decoded : RouterAdvert.decode body = some ra) {key : Ipv6Addr ×ₗ U8} {p : Prefix}
    (stored : e.prefixes.lookup key = some p) :
    (∃ after, (e.receive sha1 now source body).1.prefixes.lookup key = some after ∧
      Extended now ra.prefixes key p after) ∨
    ((e.receive sha1 now source body).1.prefixes.lookup key = none ∧ ending p.validUntil ≤ WithTop.some now) := by
  rw [receive_prefixes sha1 e now source decoded]
  rw [← (e.receiveRouter_frame now source ra).1] at stored
  obtain ⟨middle, looked, extended⟩ := foldl_receivePrefix_extended sha1 now ra.prefixes stored
  rw [← advertised_prefixes] at looked
  by_cases ahead : WithTop.some now < ending middle.validUntil
  · obtain ⟨after, kept, stable, valid⟩ := expire_keeps _ looked ahead
    refine .inl ⟨after, kept, stable.trans extended.stable, ?_, ?_⟩
    · rw [valid]
      exact extended.least
    · rw [valid]
      exact extended.most
  · refine .inr ⟨expire_removes _ looked ahead, ?_⟩
    -- Two hours are ahead, so only the old end can have passed.
    have least := extended.least.trans (not_lt.mp ahead)
    apply (min_le_iff.mp least).resolve_right
    intro passed
    simp only [WithTop.coe_le_coe, twoHours, Duration.fromSecs] at passed
    omega

/-! ## Runs -/

/-- The prefix is stored with this stable address, and its lifetime ends no sooner than `bound`. -/
def HeldUntil (bound : WithTop ℕ) (key : Ipv6Addr ×ₗ U8) (stable : Ipv6Addr) (e : Engine) : Prop :=
  ∃ p, e.prefixes.lookup key = some p ∧ p.stable = stable ∧ bound ≤ ending p.validUntil

/-- While the bound is ahead, no operation shortens the lifetime below it. -/
theorem next_heldUntil {bound : WithTop ℕ} {begun : ℕ} (short : bound ≤ WithTop.some (begun + twoHours))
    {key : Ipv6Addr ×ₗ U8} {stable : Ipv6Addr} {e : Engine} (op : Op) (noStart : ∀ now, op ≠ .start now)
    (le : begun ≤ op.time) (ahead : WithTop.some op.time < bound) (held : HeldUntil bound key stable e) :
    HeldUntil bound key stable ((machine sha1).next e op) := by
  obtain ⟨p, stored, rfl, least⟩ := held
  cases op with
  | start now => exact absurd rfl (noStart now)
  | tick now =>
    obtain ⟨after, kept, stable, valid⟩ := expire_keeps e stored (lt_of_lt_of_le ahead least)
    rw [next_tick, HeldUntil, tick_prefixes]
    exact ⟨after, kept, stable, valid ▸ least⟩
  | receive now source body =>
    cases decoded : RouterAdvert.decode body with
    | none =>
      refine ⟨p, ?_, rfl, least⟩
      rw [next_receive, receive_undecodable sha1 e now source decoded]
      exact stored
    | some ra =>
      rcases receive_extended sha1 e now source decoded stored with ⟨after, kept, extended⟩ | ⟨_, ended⟩
      · refine ⟨after, kept, extended.stable, le_trans (le_min least (short.trans ?_)) extended.least⟩
        exact WithTop.coe_le_coe.mpr (Nat.add_le_add_right le _)
      · exact absurd (lt_of_lt_of_le ahead least) (not_lt.mpr ended)

/-- The clock has reached the bound, or the prefix is still held until then. -/
def LastsUntil (bound : WithTop ℕ) (begun : ℕ) (key : Ipv6Addr ×ₗ U8) (stable : Ipv6Addr) (s : Engine × ℕ) : Prop :=
  begun ≤ s.2 ∧ (bound ≤ WithTop.some s.2 ∨ HeldUntil bound key stable s.1)

theorem run_lastsUntil {bound : WithTop ℕ} {begun : ℕ} (short : bound ≤ WithTop.some (begun + twoHours))
    {key : Ipv6Addr ×ₗ U8} {stable : Ipv6Addr} {e : Engine} (held : HeldUntil bound key stable e)
    {ops : List Op} {t : Engine × ℕ} (path : (timed sha1).Run Later (e, begun) ops t) :
    LastsUntil bound begun key stable t := by
  have initial : LastsUntil bound begun key stable (e, begun) := ⟨le_rfl, .inr held⟩
  refine path.invariant initial fun s op later ⟨le, state⟩ => ⟨le.trans later.2, ?_⟩
  rcases state with passed | held
  · exact .inl (passed.trans (WithTop.coe_le_coe.mpr later.2))
  · by_cases ahead : WithTop.some op.time < bound
    · exact .inr (next_heldUntil sha1 short op later.1 (le.trans later.2) ahead held)
    · exact .inl (not_lt.mp ahead)

/-- A prefix that has not ended lists its stable address. -/
theorem stable_listed {e : Engine} {now : ℕ} {key : Ipv6Addr ×ₗ U8} {p : Prefix}
    (stored : e.prefixes.lookup key = some p) (ahead : WithTop.some now < ending p.validUntil) :
    ∃ entry ∈ e.addresses now, entry.address = p.stable ∧ entry.prefixLength = (ofLex key).2 := by
  have notEnded : ¬ (p.validUntil.any fun ends => decide (ends ≤ now)) = true := fun ended =>
    Deadline.any_eq_true_iff.mp ended (Deadline.ahead_iff_lt_ending.mpr ahead)
  refine ⟨⟨p.stable, (ofLex key).2, p.preferredUntil.any fun ends => decide (ends ≤ now), p.onLink⟩, ?_, rfl, rfl⟩
  simp only [addresses, view, List.mem_insertionSort, List.mem_flatMap]
  refine ⟨(key, p), (SortedMap.lookup_eq_some_iff _ _ _).mp stored, ?_⟩
  simp only [prefixAddresses, notEnded, Bool.false_eq_true, ↓reduceIte, List.mem_cons, true_or]

/-! ## Preferred lifetimes -/

/-- No prefix is preferred for longer than it is valid. -/
def PreferredWithinValid (e : Engine) : Prop := ∀ key p, e.prefixes.lookup key = some p →
  ending p.preferredUntil ≤ ending p.validUntil

theorem new_preferred (config : Config) : (new config).PreferredWithinValid := by
  intro key p stored
  have absent : (new config).prefixes.lookup key = none := SortedMap.lookup_empty key
  rw [absent] at stored
  contradiction

theorem receivePrefix_preferred (now : ℕ) (e : Engine) (info : PrefixInfo) (within : e.PreferredWithinValid) :
    (receivePrefix sha1 now e info).PreferredWithinValid := by
  intro key after looked
  have move := receivePrefix_told sha1 now e info key
  rw [looked] at move
  have le (isUsable : usable info = true) : info.preferred ≤ info.valid := by
    simp only [usable, Bool.and_eq_true, decide_eq_true_eq] at isUsable
    exact isUsable.2
  generalize result : some after = found at move
  cases move with
  | kept _ => exact within key after result.symm
  | updated isUsable _ _ =>
    obtain rfl := Option.some.inj result
    exact until_le_nextValidUntil now _ (le isUsable)
  | formed isUsable _ _ _ _ =>
    obtain rfl := Option.some.inj result
    exact until_mono now (le isUsable)

theorem expire_preferred (e : Engine) (now : ℕ) (within : e.PreferredWithinValid) :
    (e.expire now).PreferredWithinValid := by
  intro key after looked
  obtain ⟨rng, _, found⟩ := expire_lookup (fun (_ : U64) (_ : True) => trivial) e now trivial key
  rw [looked] at found
  obtain ⟨p, kept, rfl⟩ := Option.map_eq_some_iff.mp found.symm
  rw [refreshed_preferredUntil, refreshed_validUntil]
  exact within key p (Option.filter_eq_some_iff.mp kept).1

theorem next_preferred (e : Engine) (op : Op) (within : e.PreferredWithinValid) :
    ((machine sha1).next e op).PreferredWithinValid := by
  cases op with
  | start now =>
    rw [next_start, PreferredWithinValid, start, tick_prefixes]
    exact expire_preferred _ now within
  | tick now =>
    rw [next_tick, PreferredWithinValid, tick_prefixes]
    exact expire_preferred _ now within
  | receive now source body =>
    rw [next_receive]
    cases decoded : RouterAdvert.decode body with
    | none =>
      rw [receive_undecodable sha1 e now source decoded]
      exact within
    | some ra =>
      rw [PreferredWithinValid, receive_prefixes sha1 e now source decoded]
      apply expire_preferred _ now
      have router : (e.receiveRouter now source ra).PreferredWithinValid := by
        rw [PreferredWithinValid, (e.receiveRouter_frame now source ra).1]
        exact within
      exact List.foldlRecOn ra.prefixes (receivePrefix sha1 now) router
        fun e within info _ => receivePrefix_preferred sha1 now e info within

/-- The two-hour rule over whole runs: a stable address stays listed until its prefix would have ended
or for two hours, whatever is received; one advertisement moves the end of the valid lifetime within
its bounds; and no preferred lifetime ends after the valid one. -/
theorem two_hour_rule (config : Config) (before : List Op) :
    let e := (machine sha1).run (new config) before
    (∀ key p begun, e.prefixes.lookup key = some p →
      ∀ ops e' last, (timed sha1).Run Later (e, begun) ops (e', last) → ∀ now, last ≤ now →
        WithTop.some now < min (ending p.validUntil) (WithTop.some (begun + twoHours)) →
        ∃ entry ∈ e'.addresses now, entry.address = p.stable ∧ entry.prefixLength = (ofLex key).2) ∧
    (∀ now source body key p, e.prefixes.lookup key = some p →
      (∃ after, (e.receive sha1 now source body).1.prefixes.lookup key = some after ∧
        min (ending p.validUntil) (WithTop.some (now + twoHours)) ≤ ending after.validUntil ∧
        (ending after.validUntil ≤ ending p.validUntil ∨
          ∃ ra, RouterAdvert.decode body = some ra ∧ ∃ info ∈ ra.prefixes, infoKey info = key ∧
            ending after.validUntil ≤ ending («until» now info.valid))) ∨
      ((e.receive sha1 now source body).1.prefixes.lookup key = none ∧ ending p.validUntil ≤ WithTop.some now)) ∧
    ∀ key p, e.prefixes.lookup key = some p → ending p.preferredUntil ≤ ending p.validUntil := by
  intro e
  refine ⟨fun key p begun stored ops e' last path now le ahead => ?_,
    fun now source body key p stored => ?_, ?_⟩
  · obtain ⟨_, passed | ⟨p', stored', stable, least⟩⟩ := run_lastsUntil sha1 (min_le_right ..)
      ⟨p, stored, rfl, min_le_left ..⟩ path
    · exact absurd (passed.trans (WithTop.coe_le_coe.mpr le)) (not_le.mpr ahead)
    · rw [← stable]
      exact stable_listed stored' (lt_of_lt_of_le ahead least)
  · cases decoded : RouterAdvert.decode body with
    | none =>
      rw [receive_undecodable sha1 e now source decoded]
      exact .inl ⟨p, stored, min_le_left .., .inl le_rfl⟩
    | some ra =>
      apply (receive_extended sha1 e now source decoded stored).imp_left
      rintro ⟨after, kept, extended⟩
      exact ⟨after, kept, extended.least, extended.most.imp_right fun bounded => ⟨ra, rfl, bounded⟩⟩
  · exact (machine sha1).run_invariant (next_preferred sha1) (new_preferred config) before

end Rule

end Netd.Model.Ndp.Engine
