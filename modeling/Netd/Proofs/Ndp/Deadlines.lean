import Mathlib.Data.List.Find
import Netd.Proofs.Ndp.Expiry

/-! # The engine's deadline is exact

Between the instant lifetimes were last applied and the next deadline nothing ends: every comparison
that the view or a tick makes gives the same answer throughout. So a tick before the deadline is
silent, and a caller that ticks at every deadline has been told of the view it would read.
-/

namespace Netd.Model.Ndp.Engine

/-- The deadline is the soonest instant considered. -/
theorem ahead_nextDeadline {e : Engine} {now : ℕ} : Deadline.Ahead now e.nextDeadline ↔
    Deadline.Ahead now e.solicitAt ∧ ∀ ends ∈ e.considered, Deadline.Ahead now ends :=
  Deadline.ahead_foldl_sooner _ _

/-- What a deadline ahead says about each lifetime. -/
structure Quiet (first second : ℕ) (e : Engine) : Prop where
  soliciting : Deadline.Ahead second e.solicitAt
  routers : ∀ entry ∈ e.routers.entries, second < entry.2
  rdnss : ∀ entry ∈ e.rdnss.entries, Deadline.Ahead second entry.2
  dnssl : ∀ entry ∈ e.dnssl.entries, Deadline.Ahead second entry.2
  prefixes : ∀ entry ∈ e.prefixes.entries, Deadline.Ahead second entry.2.validUntil
  preferred : ∀ entry ∈ e.prefixes.entries, Deadline.Settled first second entry.2.preferredUntil
  temps : ∀ entry ∈ e.prefixes.entries, ∀ temp ∈ entry.2.temps, second < temp.validUntil
  tempPreferred : ∀ entry ∈ e.prefixes.entries, ∀ temp ∈ entry.2.temps,
    Deadline.Settled first second (some temp.preferredUntil)

/-- A preferred lifetime that is not pending has ended by the last expiry. -/
theorem settled_of_pending {e : Engine} {first second : ℕ} (expired : e.expiredAt = some first)
    {ends : Option ℕ} (ahead : Deadline.Ahead second (e.pending ends)) :
    Deadline.Settled first second ends := by
  intro moment member
  by_cases past : moment ≤ first
  · exact .inl past
  · refine .inr (ahead moment ?_)
    rw [Option.mem_def] at member
    simp only [pending, expired, member, Option.all_some, Option.mem_def, Option.filter_eq_some_iff,
      decide_eq_true_eq, true_and]
    omega

theorem Fresh.quiet {e : Engine} {first second : ℕ} (fresh : e.Fresh first)
    (ahead : Deadline.Ahead second e.nextDeadline) : Quiet first second e := by
  obtain ⟨soliciting, considered⟩ := ahead_nextDeadline.mp ahead
  have ofPrefix (entry) (member : entry ∈ e.prefixes.entries) (ends : Option ℕ)
      (part : ends ∈ entry.2.validUntil :: e.pending entry.2.preferredUntil ::
        entry.2.temps.flatMap fun temp => [e.pending (some temp.preferredUntil), some temp.validUntil]) :
      Deadline.Ahead second ends := by
    apply considered
    simp only [Engine.considered, List.mem_append, List.mem_flatMap]
    exact .inl (.inl (.inr ⟨entry, member, part⟩))
  have ofTemp (entry) (member : entry ∈ e.prefixes.entries) (temp) (within : temp ∈ entry.2.temps)
      (ends : Option ℕ) (part : ends ∈ [e.pending (some temp.preferredUntil), some temp.validUntil]) :
      Deadline.Ahead second ends :=
    ofPrefix entry member ends
      (List.mem_cons_of_mem _ (List.mem_cons_of_mem _ (List.mem_flatMap.mpr ⟨temp, within, part⟩)))
  refine ⟨soliciting, fun entry member => ?_, fun entry member => ?_, fun entry member => ?_,
    fun entry member => ?_, fun entry member => ?_, fun entry member temp within => ?_,
    fun entry member temp within => ?_⟩
  · refine Deadline.ahead_some.mp (considered _ ?_)
    simp only [Engine.considered, List.mem_append, List.mem_map]
    exact .inl (.inl (.inl ⟨entry, member, rfl⟩))
  · apply considered
    simp only [Engine.considered, List.mem_append, List.mem_map]
    exact .inl (.inr ⟨entry, member, rfl⟩)
  · apply considered
    simp only [Engine.considered, List.mem_append, List.mem_map]
    exact .inr ⟨entry, member, rfl⟩
  · exact ofPrefix entry member _ List.mem_cons_self
  · exact settled_of_pending fresh.expired (ofPrefix entry member _ (by simp))
  · exact Deadline.ahead_some.mp (ofTemp entry member temp within _ (by simp))
  · exact settled_of_pending fresh.expired (ofTemp entry member temp within _ (by simp))

/-! ## Nothing changes before the deadline -/

/-- A prefix none of whose addresses has ended lists them all. -/
theorem prefixAddresses_live {now : ℕ} (length : U8) {p : Prefix} (valid : Deadline.Ahead now p.validUntil)
    (temps : ∀ temp ∈ p.temps, now < temp.validUntil) : prefixAddresses now length p =
      { address := p.stable, prefixLength := length
        deprecated := p.preferredUntil.any fun ends => decide (ends ≤ now), onLink := p.onLink } ::
      p.temps.map fun temp =>
        { address := temp.address, prefixLength := length
          deprecated := (p.preferredUntil.any fun ends => decide (ends ≤ now)) ||
            decide (temp.preferredUntil ≤ now)
          onLink := p.onLink } := by
  have notEnded : ¬ (p.validUntil.any fun ends => decide (ends ≤ now)) = true := fun ended =>
    Deadline.any_eq_true_iff.mp ended valid
  have all : p.temps.filter (tempListed now p) = p.temps := by
    apply List.filter_eq_self.mpr
    intro temp member
    have live := temps temp member
    cases ends : p.validUntil with
    | none => simpa [tempListed, ends] using live
    | some ends' =>
      rw [ends, Deadline.ahead_some] at valid
      simp [tempListed, ends, live, valid]
  simp only [prefixAddresses, notEnded, Bool.false_eq_true, ↓reduceIte, all]

theorem Quiet.prefixAddresses_eq {e : Engine} {first second : ℕ} (le : first ≤ second)
    (quiet : Quiet first second e) {entry : (Ipv6Addr ×ₗ U8) × Prefix} (member : entry ∈ e.prefixes.entries) :
    prefixAddresses second (ofLex entry.1).2 entry.2 = prefixAddresses first (ofLex entry.1).2 entry.2 := by
  have valid := quiet.prefixes entry member
  have temps := quiet.temps entry member
  rw [prefixAddresses_live _ valid temps, prefixAddresses_live _ (fun ends mem => le.trans_lt (valid ends mem))
    fun temp mem => le.trans_lt (temps temp mem), (quiet.preferred entry member).any_eq le]
  refine congrArg _ (List.map_congr_left fun temp within => ?_)
  have same := (quiet.tempPreferred entry member temp within).any_eq le
  simp only [Option.any_some] at same
  rw [same]

theorem live_eq {κ : Type} [LinearOrder κ] {now : ℕ} {map : SortedMap κ (Option ℕ)}
    (ahead : ∀ entry ∈ map.entries, Deadline.Ahead now entry.2) : live now map = map.entries.map Prod.fst := by
  rw [live, List.filter_eq_self.mpr fun entry member => Deadline.all_eq_true_iff.mpr (ahead entry member)]

theorem Quiet.view_eq {e : Engine} {first second : ℕ} (le : first ≤ second) (quiet : Quiet first second e) :
    e.view second = e.view first := by
  have earlier {ends : Option ℕ} (ahead : Deadline.Ahead second ends) : Deadline.Ahead first ends :=
    fun moment member => le.trans_lt (ahead moment member)
  have addresses : (e.prefixes.entries.flatMap fun entry => prefixAddresses second (ofLex entry.1).2 entry.2) =
      e.prefixes.entries.flatMap fun entry => prefixAddresses first (ofLex entry.1).2 entry.2 :=
    List.flatMap_congr fun entry member => quiet.prefixAddresses_eq le member
  have router : e.defaultRouter second = e.defaultRouter first := by
    refine congrArg (Option.map Prod.fst) (List.find?_congr fun entry member => ?_)
    have live := quiet.routers entry member
    simp [live, le.trans_lt live]
  simp only [view, addresses, router, dnsServers, searchDomains, live_eq quiet.rdnss, live_eq quiet.dnssl,
    live_eq fun entry member => earlier (quiet.rdnss entry member),
    live_eq fun entry member => earlier (quiet.dnssl entry member)]

/-- What a quiet engine holds, whenever it solicits next. -/
structure Still (first second : ℕ) (e : Engine) : Prop where
  routers : ∀ entry ∈ e.routers.entries, second < entry.2
  rdnss : ∀ entry ∈ e.rdnss.entries, Deadline.Ahead second entry.2
  dnssl : ∀ entry ∈ e.dnssl.entries, Deadline.Ahead second entry.2
  prefixes : ∀ entry ∈ e.prefixes.entries, Deadline.Ahead second entry.2.validUntil
  preferred : ∀ entry ∈ e.prefixes.entries, Deadline.Settled first second entry.2.preferredUntil
  temps : ∀ entry ∈ e.prefixes.entries, ∀ temp ∈ entry.2.temps, second < temp.validUntil
  tempPreferred : ∀ entry ∈ e.prefixes.entries, ∀ temp ∈ entry.2.temps,
    Deadline.Settled first second (some temp.preferredUntil)

theorem Quiet.still {e : Engine} {first second : ℕ} (quiet : Quiet first second e) : Still first second e :=
  ⟨quiet.routers, quiet.rdnss, quiet.dnssl, quiet.prefixes, quiet.preferred, quiet.temps, quiet.tempPreferred⟩

/-- No end lies between an instant and itself. -/
theorem Fresh.still {e : Engine} {now : ℕ} (fresh : e.Fresh now) : Still now now e where
  routers := fresh.routers
  rdnss := fresh.rdnss
  dnssl := fresh.dnssl
  prefixes := fresh.prefixes
  preferred _ _ moment _ := le_or_gt moment now
  temps := fresh.temps
  tempPreferred _ _ _ _ moment _ := le_or_gt moment now

theorem Still.wantsTemp_eq {e : Engine} {first second : ℕ} (le : first ≤ second)
    (still : Still first second e) {entry : (Ipv6Addr ×ₗ U8) × Prefix} (member : entry ∈ e.prefixes.entries) :
    wantsTemp e.config second entry.2 = wantsTemp e.config first entry.2 := by
  have newest : (entry.2.temps.getLast?.any fun temp => decide (second < temp.preferredUntil)) =
      entry.2.temps.getLast?.any fun temp => decide (first < temp.preferredUntil) := by
    cases last : entry.2.temps.getLast? with
    | none => rfl
    | some temp =>
      have same := (still.tempPreferred entry member temp (List.mem_of_getLast? last)).all_eq le
      simpa using same.symm
  simp only [wantsTemp, (still.preferred entry member).all_eq le, newest]

/-- While nothing ends, applying lifetimes again only moves the instant they were applied at. -/
theorem Fresh.expire_still {e : Engine} {first second : ℕ} (fresh : e.Fresh first) (le : first ≤ second)
    (still : Still first second e) : e.expire second = { e with expiredAt := some second } := by
  have routers : (e.routers.filter fun _ ends => decide (second < ends)) = e.routers :=
    SortedMap.filter_eq_self fun entry member => by simpa using still.routers entry member
  have live {κ : Type} [LinearOrder κ] {map : SortedMap κ (Option ℕ)}
      (ahead : ∀ entry ∈ map.entries, Deadline.Ahead second entry.2) :
      (map.filter fun _ ends => ends.all fun moment => decide (second < moment)) = map :=
    SortedMap.filter_eq_self fun entry member => Deadline.all_eq_true_iff.mpr (ahead entry member)
  have prefixes : (e.prefixes.filter fun _ p => p.validUntil.all fun moment => decide (second < moment)) =
      e.prefixes :=
    SortedMap.filter_eq_self fun entry member => Deadline.all_eq_true_iff.mpr (still.prefixes entry member)
  have temps : (e.prefixes.mapVal fun _ p =>
      { p with temps := p.temps.filter fun temp => decide (second < temp.validUntil) }) = e.prefixes := by
    apply SortedMap.mapVal_eq_self
    intro entry member
    rw [List.filter_eq_self.mpr fun temp within => decide_eq_true (still.temps entry member temp within)]
  have soliciting : (e.routers.isEmpty && e.solicitAt.isNone) = false := by
    cases gone : e.routers.isEmpty with
    | false => rfl
    | true => simpa using fresh.soliciting gone
  have dropped : e.dropEnded second = { e with expiredAt := some second } := by
    simp only [dropEnded, routers, soliciting, Bool.false_eq_true, ↓reduceIte, live still.rdnss,
      live still.dnssl, prefixes, temps]
  have supplied : regenerated { e with expiredAt := some second } second = [] := by
    rw [regenerated, List.map_eq_nil_iff, List.filter_eq_nil_iff]
    intro entry member
    rw [still.wantsTemp_eq le member, fresh.supplied entry member]
    simp
  have few : (e.prefixes.mapVal fun _ p => { p with temps := newestTemps p.temps }) = e.prefixes := by
    apply SortedMap.mapVal_eq_self
    intro entry member
    rw [newestTemps_of_few (fresh.few entry member)]
  simp only [expire, dropped, supplied, List.foldl_nil, few]

/-- Before the deadline nothing ends. -/
theorem Fresh.expire_eq {e : Engine} {first second : ℕ} (fresh : e.Fresh first) (le : first ≤ second)
    (quiet : Quiet first second e) : e.expire second = { e with expiredAt := some second } :=
  fresh.expire_still le quiet.still

/-- Applying lifetimes a second time at the same instant changes nothing. -/
theorem Fresh.expire_self {e : Engine} {now : ℕ} (fresh : e.Fresh now) : e.expire now = e := by
  rw [fresh.expire_still le_rfl fresh.still, ← fresh.expired]

/-! ## Ticks -/

/-- The interval solicitations are repeated at stays between four seconds and an hour. -/
def Paced (e : Engine) : Prop :=
  Ndp.solicitInterval ≤ e.solicitInterval ∧ e.solicitInterval ≤ maxSolicitInterval

theorem jitter_pos (rng : U64) {interval : ℕ} (paced : Ndp.solicitInterval ≤ interval) :
    0 < (jitter rng interval).1 := by
  simp only [jitter, Duration.fromMillis, Duration.asMillis, Ndp.solicitInterval, Duration.fromSecs] at paced ⊢
  omega

theorem solicitDue_ahead {e : Engine} {now : ℕ} (ahead : Deadline.Ahead now e.solicitAt) :
    e.solicitDue now = (e, []) := by
  unfold solicitDue
  split
  · next due dueEq =>
    rw [dueEq, Deadline.ahead_some] at ahead
    rw [if_neg (not_le.mpr ahead)]
  · rfl

theorem nextInterval_paced (solicits : ℕ) {interval : ℕ} (least : Ndp.solicitInterval ≤ interval)
    (most : interval ≤ maxSolicitInterval) :
    Ndp.solicitInterval ≤ nextInterval solicits interval ∧ nextInterval solicits interval ≤ maxSolicitInterval := by
  simp only [nextInterval, Ndp.solicitInterval, maxSolicitInterval, Duration.fromSecs] at least most ⊢
  split <;> omega

/-- Soliciting touches the generator and the schedule, and leaves the next solicitation ahead. -/
theorem solicitDue_spec {e : Engine} (now : ℕ) (paced : e.Paced) :
    ∃ rng at' interval solicits, (e.solicitDue now).1 = { e with
        rng := rng, solicitAt := at', solicitInterval := interval, solicits := solicits } ∧
      Deadline.Ahead now at' ∧ at'.isSome = e.solicitAt.isSome ∧
      (Ndp.solicitInterval ≤ interval ∧ interval ≤ maxSolicitInterval) ∧ .changed ∉ (e.solicitDue now).2 := by
  by_cases ahead : Deadline.Ahead now e.solicitAt
  · rw [solicitDue_ahead ahead]
    exact ⟨_, _, _, _, rfl, ahead, rfl, paced, List.not_mem_nil⟩
  · cases dueEq : e.solicitAt with
    | none => exact absurd (dueEq ▸ Deadline.ahead_none now) ahead
    | some due =>
      rw [dueEq, Deadline.ahead_some, not_lt] at ahead
      have interval := nextInterval_paced (e.solicits + 1) paced.1 paced.2
      have later := Nat.lt_add_of_pos_right (n := now) (jitter_pos e.rng interval.1)
      simp only [solicitDue, dueEq, if_pos ahead]
      -- By `rfl` the two `isSome` would be compared through the instants inside.
      exact ⟨_, _, _, _, rfl, Deadline.ahead_some.mpr later, by simp only [Option.isSome_some], interval, by simp⟩

theorem expire_paced (e : Engine) (now : ℕ) (paced : e.Paced) : (e.expire now).Paced := by
  obtain ⟨rng, prefixes, frame⟩ := e.expire_frame now
  rw [frame]
  unfold dropEnded
  dsimp only
  split
  · exact ⟨le_rfl, show Ndp.solicitInterval ≤ maxSolicitInterval by decide⟩
  · exact paced

/-- Emitting records the view, whether or not it is reported. -/
theorem emitIfChanged_fst (e : Engine) (now : ℕ) (actions : List Action) :
    (e.emitIfChanged now actions).1 = { e with lastView := e.view now } := by
  unfold emitIfChanged
  split
  · rfl
  · next same => rw [not_not.mp same]

/-- What was recorded is no part of the view. -/
theorem emitIfChanged_view (e : Engine) (now : ℕ) (actions : List Action) :
    (e.emitIfChanged now actions).1.view now = e.view now := by
  rw [emitIfChanged_fst]
  rfl

theorem changed_mem_emitIfChanged (e : Engine) (now : ℕ) {actions : List Action} (none : .changed ∉ actions) :
    .changed ∈ (e.emitIfChanged now actions).2 ↔ e.view now ≠ e.lastView := by
  unfold emitIfChanged
  split
  · next differs => simp [differs]
  · next same => simp [none, same]

/-- Lifetimes were applied at this instant, and the view at it was compared with the last. -/
structure Current (applied : ℕ) (e : Engine) : Prop where
  fresh : e.Fresh applied
  seen : e.lastView = e.view applied
  paced : e.Paced

/-- What was last shown is no part of what is shown. -/
theorem view_seen (e : Engine) (now : ℕ) (seen : View) : { e with lastView := seen }.view now = e.view now := rfl

theorem Fresh.seen {e : Engine} {now : ℕ} (fresh : e.Fresh now) (seen : View) :
    { e with lastView := seen }.Fresh now :=
  ⟨fresh.expired, fresh.routers, fresh.soliciting, fresh.rdnss, fresh.dnssl, fresh.prefixes, fresh.temps,
    fresh.supplied, fresh.few⟩

theorem emitIfChanged_current {e : Engine} {now : ℕ} (actions : List Action) (fresh : e.Fresh now)
    (paced : e.Paced) : (e.emitIfChanged now actions).1.Current now := by
  rw [emitIfChanged_fst]
  exact ⟨fresh.seen _, (view_seen e now _).symm, paced⟩

theorem Fresh.ahead {e : Engine} {now : ℕ} (fresh : e.Fresh now) (soliciting : Deadline.Ahead now e.solicitAt) :
    Deadline.Ahead now e.nextDeadline := by
  have pendingAhead (ends : Option ℕ) : Deadline.Ahead now (e.pending ends) := fun moment member => by
    simpa [fresh.expired] using (Option.filter_eq_some_iff.mp member).2
  refine ahead_nextDeadline.mpr ⟨soliciting, fun ends member => ?_⟩
  simp only [considered, List.mem_append, List.mem_map, List.mem_flatMap, List.mem_cons] at member
  rcases member with ((⟨entry, stored, rfl⟩ | ⟨entry, stored, rfl | rfl | ⟨temp, within, part⟩⟩) |
    ⟨entry, stored, rfl⟩) | ⟨entry, stored, rfl⟩
  · exact Deadline.ahead_some.mpr (fresh.routers entry stored)
  · exact fresh.prefixes entry stored
  · exact pendingAhead _
  · rcases part with rfl | rfl | none
    · exact pendingAhead _
    · exact Deadline.ahead_some.mpr (fresh.temps entry stored temp within)
    · exact absurd none List.not_mem_nil
  · exact fresh.rdnss entry stored
  · exact fresh.dnssl entry stored

theorem expire_lastView (e : Engine) (now : ℕ) : (e.expire now).lastView = e.lastView := by
  obtain ⟨rng, prefixes, frame⟩ := e.expire_frame now
  rw [frame]
  unfold dropEnded
  dsimp only
  split <;> rfl

/-- Soliciting keeps what expiry left, with the next solicitation ahead. -/
theorem solicitDue_fresh {e : Engine} {now : ℕ} (fresh : e.Fresh now) (paced : e.Paced) :
    (e.solicitDue now).1.Fresh now ∧ (e.solicitDue now).1.Paced ∧
      Deadline.Ahead now (e.solicitDue now).1.solicitAt ∧ (e.solicitDue now).1.lastView = e.lastView ∧
      .changed ∉ (e.solicitDue now).2 := by
  obtain ⟨rng, at', interval, solicits, shape, ahead, stays, paced', silent⟩ := solicitDue_spec now paced
  refine ⟨?_, ?_, ?_, ?_, silent⟩
  · rw [shape]
    exact ⟨fresh.expired, fresh.routers, fun gone => stays.trans (fresh.soliciting gone), fresh.rdnss,
      fresh.dnssl, fresh.prefixes, fresh.temps, fresh.supplied, fresh.few⟩
  · rw [shape]
    exact paced'
  · rw [shape]
    exact ahead
  · rw [shape]

/-- After a tick the engine is current, and the next deadline is strictly later. -/
theorem tick_spec {e : Engine} (now : ℕ) (paced : e.Paced) :
    (e.tick now).1.Current now ∧ Deadline.Ahead now (e.tick now).1.nextDeadline ∧
      (.changed ∈ (e.tick now).2 ↔ (e.tick now).1.view now ≠ e.lastView) := by
  obtain ⟨fresh, paced', ahead, last, silent⟩ :=
    solicitDue_fresh (e.expire_fresh now) (e.expire_paced now paced)
  have current := emitIfChanged_current ((e.expire now).solicitDue now).2 fresh paced'
  refine ⟨current, current.fresh.ahead ?_, ?_⟩
  · rw [emitIfChanged_fst]
    exact ahead
  · rw [tick, changed_mem_emitIfChanged _ now silent, emitIfChanged_view, last, expire_lastView]

theorem receivePrefix_frame (sha1 : Bytes → BitVec 160) (now : ℕ) (e : Engine) (info : PrefixInfo) :
    ∃ rng prefixes, receivePrefix sha1 now e info = { e with rng := rng, prefixes := prefixes } := by
  unfold receivePrefix
  dsimp only
  repeat' split
  all_goals exact ⟨_, _, rfl⟩

/-- Prefix options touch only the generator and the stored prefixes. -/
theorem foldl_receivePrefix_frame (sha1 : Bytes → BitVec 160) (now : ℕ) (infos : List PrefixInfo) (e : Engine) :
    ∃ rng prefixes, infos.foldl (receivePrefix sha1 now) e = { e with rng := rng, prefixes := prefixes } := by
  induction infos generalizing e with
  | nil => exact ⟨_, _, rfl⟩
  | cons info rest ih =>
    obtain ⟨rng, prefixes, first⟩ := receivePrefix_frame sha1 now e info
    obtain ⟨rng', prefixes', later⟩ := ih (receivePrefix sha1 now e info)
    exact ⟨rng', prefixes', by rw [List.foldl_cons, later, first]⟩

theorem receiveRouter_frame (e : Engine) (now : ℕ) (source : Ipv6Addr) (ra : RouterAdvert) :
    (e.receiveRouter now source ra).prefixes = e.prefixes ∧ (e.receiveRouter now source ra).rng = e.rng ∧
      (e.receiveRouter now source ra).config = e.config ∧
      (e.receiveRouter now source ra).solicitInterval = e.solicitInterval ∧
      (e.receiveRouter now source ra).lastView = e.lastView := by
  unfold receiveRouter
  dsimp only
  split <;> exact ⟨rfl, rfl, rfl, rfl, rfl⟩

theorem advertised_frame (sha1 : Bytes → BitVec 160) (e : Engine) (now : ℕ) (source : Ipv6Addr)
    (ra : RouterAdvert) :
    (e.advertised sha1 now source ra).solicitInterval = e.solicitInterval ∧
      (e.advertised sha1 now source ra).lastView = e.lastView := by
  obtain ⟨rng, prefixes, frame⟩ :=
    foldl_receivePrefix_frame sha1 now ra.prefixes (e.receiveRouter now source ra)
  obtain ⟨_, _, _, interval, last⟩ := e.receiveRouter_frame now source ra
  unfold advertised
  rw [frame]
  exact ⟨interval, last⟩

theorem receive_undecodable (sha1 : Bytes → BitVec 160) (e : Engine) (now : ℕ) (source : Ipv6Addr)
    {body : Bytes} (undecodable : RouterAdvert.decode body = none) :
    e.receive sha1 now source body = (e, []) := by
  simp only [receive, undecodable]

/-- An advertisement that decodes makes the engine current. -/
theorem receive_spec (sha1 : Bytes → BitVec 160) {e : Engine} (now : ℕ) (source : Ipv6Addr) {body : Bytes}
    {ra : RouterAdvert} (decoded : RouterAdvert.decode body = some ra) (paced : e.Paced) :
    (e.receive sha1 now source body).1.Current now ∧
      (.changed ∈ (e.receive sha1 now source body).2 ↔
        (e.receive sha1 now source body).1.view now ≠ e.lastView) := by
  obtain ⟨interval, last⟩ := e.advertised_frame sha1 now source ra
  have paced' : (e.advertised sha1 now source ra).Paced := by
    rw [Paced, interval]
    exact paced
  simp only [receive, decoded]
  generalize e.advertised sha1 now source ra = told at paced' last
  refine ⟨emitIfChanged_current [] (told.expire_fresh now) (told.expire_paced now paced'), ?_⟩
  rw [changed_mem_emitIfChanged _ now List.not_mem_nil, emitIfChanged_view, expire_lastView,
    last]

/-! ## The operations -/

section Operations

variable (sha1 : Bytes → BitVec 160)

theorem next_start (e : Engine) (now : ℕ) : (machine sha1).next e (.start now) = (e.start now).1 := rfl

theorem output_start (e : Engine) (now : ℕ) : (machine sha1).output e (.start now) = (e.start now).2 := rfl

theorem next_tick (e : Engine) (now : ℕ) : (machine sha1).next e (.tick now) = (e.tick now).1 := rfl

theorem output_tick (e : Engine) (now : ℕ) : (machine sha1).output e (.tick now) = (e.tick now).2 := rfl

theorem next_receive (e : Engine) (now : ℕ) (source : Ipv6Addr) (body : Bytes) :
    (machine sha1).next e (.receive now source body) = (e.receive sha1 now source body).1 := rfl

theorem output_receive (e : Engine) (now : ℕ) (source : Ipv6Addr) (body : Bytes) :
    (machine sha1).output e (.receive now source body) = (e.receive sha1 now source body).2 := rfl

end Operations

end Netd.Model.Ndp.Engine
