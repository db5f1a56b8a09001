import Netd.Proofs.Ndp.Punctual

/-! # Soliciting while there is no router

An engine that hears no router solicits, at intervals that double from four seconds up to an hour; it
stops with the first router and starts over with the last one gone. The schedule is written by `start`,
by an advertisement, by a tick and by expiry; `expire_schedule`, `receive_schedule` and `tick_schedule`
say what each of them leaves, and the rest follows from these.
-/

namespace Netd.Model.Ndp.Engine

/-- A solicitation is among the actions. -/
def Solicits (actions : List Action) : Prop := ∃ body, .solicit body ∈ actions

/-- The instant, the interval and the count that solicitations are scheduled by. -/
def schedule (e : Engine) : Option ℕ × ℕ × ℕ := (e.solicitAt, e.solicitInterval, e.solicits)

/-- The schedule of an engine that starts to solicit. -/
def afresh (now : ℕ) : Option ℕ × ℕ × ℕ := (some now, Ndp.solicitInterval, 0)

theorem solicitAt_of_schedule {e : Engine} {due : Option ℕ} {interval solicits : ℕ}
    (same : e.schedule = (due, interval, solicits)) : e.solicitAt = due :=
  congrArg Prod.fst same

theorem interval_of_schedule {e : Engine} {due : Option ℕ} {interval solicits : ℕ}
    (same : e.schedule = (due, interval, solicits)) : e.solicitInterval = interval :=
  congrArg (fun schedule => schedule.2.1) same

theorem solicitAt_congr {e other : Engine} (same : e.schedule = other.schedule) : e.solicitAt = other.solicitAt :=
  congrArg Prod.fst same

theorem interval_congr {e other : Engine} (same : e.schedule = other.schedule) :
    e.solicitInterval = other.solicitInterval :=
  congrArg (fun schedule => schedule.2.1) same

/-- Every solicitation is due in the absence of routers. -/
def Idle (e : Engine) : Prop := e.solicitAt.isSome = true → e.routers.isEmpty = true

/-! ## What each operation leaves of the schedule -/

theorem expire_routers (e : Engine) (now : ℕ) :
    (e.expire now).routers = e.routers.filter fun _ ends => decide (now < ends) := by
  obtain ⟨rng, prefixes, frame⟩ := e.expire_frame now
  rw [frame]
  exact e.dropEnded_routers now

/-- Expiry starts over once the last router is gone, and leaves the schedule alone otherwise. -/
theorem expire_schedule (e : Engine) (now : ℕ) :
    (e.expire now).schedule =
      if (e.expire now).routers.isEmpty = true ∧ e.solicitAt = none then afresh now else e.schedule := by
  obtain ⟨rng, prefixes, frame⟩ := e.expire_frame now
  have routers : (e.expire now).routers = (e.dropEnded now).routers := by rw [frame]
  have same : (e.expire now).schedule = (e.dropEnded now).schedule := by rw [frame]; rfl
  rw [same, routers, dropEnded_routers]
  simp only [← Option.isNone_iff_eq_none, ← Bool.and_eq_true]
  unfold dropEnded
  dsimp only
  split <;> rfl

theorem filter_isEmpty {e : Engine} (gone : e.routers.isEmpty = true) (now : ℕ) :
    (e.routers.filter fun _ ends => decide (now < ends)).isEmpty = true := by
  rw [SortedMap.isEmpty_iff] at gone ⊢
  rw [gone]
  rfl

theorem expire_idle {e : Engine} (idle : e.Idle) (now : ℕ) : (e.expire now).Idle := by
  intro soliciting
  by_cases restarted : (e.expire now).routers.isEmpty = true ∧ e.solicitAt = none
  · exact restarted.1
  · have kept : (e.expire now).solicitAt = e.solicitAt := by
      have same := expire_schedule e now
      rw [if_neg restarted] at same
      exact solicitAt_congr same
    rw [kept] at soliciting
    rw [expire_routers]
    exact filter_isEmpty (idle soliciting) now

theorem emitIfChanged_schedule (e : Engine) (now : ℕ) (actions : List Action) :
    (e.emitIfChanged now actions).1.schedule = e.schedule ∧ (e.emitIfChanged now actions).1.routers = e.routers ∧
      (Solicits (e.emitIfChanged now actions).2 ↔ Solicits actions) := by
  refine ⟨?_, ?_, ?_⟩
  · rw [emitIfChanged_fst]
    rfl
  · rw [emitIfChanged_fst]
  · unfold emitIfChanged
    split
    · simp [Solicits]
    · rfl

/-- A solicitation that is due is sent and put off by a jittered interval; nothing else is sent. -/
theorem solicitDue_schedule (e : Engine) (now : ℕ) :
    (e.solicitDue now).1.routers = e.routers ∧
      ((Deadline.Ahead now e.solicitAt ∧ (e.solicitDue now).1.schedule = e.schedule ∧
          ¬Solicits (e.solicitDue now).2) ∨
        (¬Deadline.Ahead now e.solicitAt ∧ Solicits (e.solicitDue now).2 ∧
          ∃ rng, (e.solicitDue now).1.schedule =
            (some (now + (jitter rng (nextInterval (e.solicits + 1) e.solicitInterval)).1),
              nextInterval (e.solicits + 1) e.solicitInterval, e.solicits + 1))) := by
  by_cases ahead : Deadline.Ahead now e.solicitAt
  · rw [solicitDue_ahead ahead]
    refine ⟨rfl, .inl ⟨ahead, rfl, ?_⟩⟩
    rintro ⟨_, none⟩
    contradiction
  · cases dueEq : e.solicitAt with
    | none => exact absurd (dueEq ▸ Deadline.ahead_none now) ahead
    | some due =>
      rw [dueEq] at ahead
      have past : due ≤ now := not_lt.mp fun later => ahead (Deadline.ahead_some.mpr later)
      simp only [solicitDue, dueEq, if_pos past]
      exact ⟨trivial, .inr ⟨ahead, ⟨_, List.mem_singleton_self _⟩, e.rng, rfl⟩⟩

/-- A tick solicits when that is due after expiry, and only then. -/
theorem tick_schedule (e : Engine) (now : ℕ) :
    (e.tick now).1.routers = (e.expire now).routers ∧
      ((Deadline.Ahead now (e.expire now).solicitAt ∧ (e.tick now).1.schedule = (e.expire now).schedule ∧
          ¬Solicits (e.tick now).2) ∨
        (¬Deadline.Ahead now (e.expire now).solicitAt ∧ Solicits (e.tick now).2 ∧
          ∃ rng, (e.tick now).1.schedule =
            (some (now + (jitter rng (nextInterval ((e.expire now).solicits + 1) (e.expire now).solicitInterval)).1),
              nextInterval ((e.expire now).solicits + 1) (e.expire now).solicitInterval,
              (e.expire now).solicits + 1))) := by
  obtain ⟨schedule, routers, solicits⟩ :=
    emitIfChanged_schedule ((e.expire now).solicitDue now).1 now ((e.expire now).solicitDue now).2
  obtain ⟨kept, cases⟩ := solicitDue_schedule (e.expire now) now
  rw [tick, schedule, solicits]
  exact ⟨routers.trans kept, cases⟩

theorem advertised_schedule (sha1 : Bytes → BitVec 160) (e : Engine) (now : ℕ) (source : Ipv6Addr)
    (ra : RouterAdvert) :
    (e.advertised sha1 now source ra).routers = (e.receiveRouter now source ra).routers ∧
      (e.advertised sha1 now source ra).schedule = (e.receiveRouter now source ra).schedule := by
  obtain ⟨rng, prefixes, frame⟩ :=
    foldl_receivePrefix_frame sha1 now ra.prefixes (e.receiveRouter now source ra)
  unfold advertised
  rw [frame]
  exact ⟨rfl, rfl⟩

/-- A router that will be there for a while silences the engine; one that leaves changes no schedule yet. -/
theorem receiveRouter_schedule (e : Engine) (now : ℕ) (source : Ipv6Addr) (ra : RouterAdvert) :
    (0 < ra.routerLifetime ∧ (e.receiveRouter now source ra).solicitAt = none ∧
        (e.receiveRouter now source ra).routers =
          e.routers.insert source (now + Duration.fromSecs ra.routerLifetime.toNat)) ∨
      (¬0 < ra.routerLifetime ∧ (e.receiveRouter now source ra).schedule = e.schedule ∧
        (e.receiveRouter now source ra).routers = e.routers.erase source) := by
  unfold receiveRouter
  dsimp only
  split
  · next lasting => exact .inl ⟨lasting, rfl, rfl⟩
  · next zero => exact .inr ⟨zero, rfl, rfl⟩

/-- An advertisement is an expiry of what it says; it sends nothing. -/
theorem receive_schedule (sha1 : Bytes → BitVec 160) (e : Engine) (now : ℕ) (source : Ipv6Addr) {body : Bytes}
    {ra : RouterAdvert} (decoded : RouterAdvert.decode body = some ra) :
    (e.receive sha1 now source body).1.routers = ((e.advertised sha1 now source ra).expire now).routers ∧
      (e.receive sha1 now source body).1.schedule = ((e.advertised sha1 now source ra).expire now).schedule ∧
      ¬Solicits (e.receive sha1 now source body).2 := by
  simp only [receive, decoded]
  obtain ⟨schedule, routers, solicits⟩ :=
    emitIfChanged_schedule ((e.advertised sha1 now source ra).expire now) now []
  refine ⟨routers, schedule, ?_⟩
  rw [solicits]
  rintro ⟨_, none⟩
  contradiction

/-! ## Intervals -/

/-- The interval is a whole number of milliseconds, as the jitter takes it. -/
def Whole (e : Engine) : Prop := Duration.fromMillis 1 ∣ e.solicitInterval

theorem solicitInterval_whole : Duration.fromMillis 1 ∣ Ndp.solicitInterval := by decide

theorem nextInterval_whole (solicits : ℕ) {interval : ℕ} (whole : Duration.fromMillis 1 ∣ interval) :
    Duration.fromMillis 1 ∣ nextInterval solicits interval := by
  have most : Duration.fromMillis 1 ∣ maxSolicitInterval := by decide
  unfold nextInterval
  split
  · rcases min_choice (interval * 2) maxSolicitInterval with same | same
    · rw [same]
      exact Nat.dvd_mul_right_of_dvd whole 2
    · rw [same]
      exact most
  · exact whole

/-- The jitter takes off a tenth at most. -/
theorem jitter_least (rng : U64) {interval : ℕ} (whole : Duration.fromMillis 1 ∣ interval) :
    9 * interval ≤ 10 * (jitter rng interval).1 := by
  obtain ⟨millis, rfl⟩ := whole
  simp only [jitter, Duration.fromMillis, Duration.asMillis, one_mul]
  rw [Nat.mul_div_cancel_left millis (by decide)]
  generalize (nextRandom rng).toNat % (millis / 5 + 1) = spread
  omega

theorem nextInterval_first : nextInterval 1 Ndp.solicitInterval = Ndp.solicitInterval := by decide

/-! ## One operation -/

/-- An engine in operation: solicitations are due without routers only, at intervals in range. -/
structure Searching (e : Engine) : Prop where
  idle : e.Idle
  paced : e.Paced
  whole : e.Whole

theorem expire_searching {e : Engine} (searching : e.Searching) (now : ℕ) : (e.expire now).Searching := by
  refine ⟨expire_idle searching.idle now, expire_paced e now searching.paced, ?_⟩
  have same := expire_schedule e now
  split at same
  · rw [Whole, interval_of_schedule same]
    exact solicitInterval_whole
  · rw [Whole, interval_congr same]
    exact searching.whole

theorem tick_searching {e : Engine} (searching : e.Searching) (now : ℕ) : (e.tick now).1.Searching := by
  have expired := expire_searching searching now
  obtain ⟨routers, cases⟩ := tick_schedule e now
  obtain ⟨-, same, -⟩ | ⟨due, -, rng, same⟩ := cases
  · refine ⟨fun soliciting => ?_, (tick_spec now searching.paced).1.paced, ?_⟩
    · rw [routers]
      rw [solicitAt_congr same] at soliciting
      exact expired.idle soliciting
    · rw [Whole, interval_congr same]
      exact expired.whole
  · refine ⟨fun _ => ?_, (tick_spec now searching.paced).1.paced, ?_⟩
    · rw [routers]
      refine expired.idle (Option.isSome_iff_ne_none.mpr fun none => due ?_)
      rw [none]
      exact Deadline.ahead_none now
    · rw [Whole, interval_of_schedule same]
      exact nextInterval_whole _ expired.whole

/-- An engine about to solicit for the first time. -/
def armed (config : Config) (now : ℕ) : Engine :=
  { new config with solicits := 0, solicitInterval := Ndp.solicitInterval, solicitAt := some now }

theorem armed_searching (config : Config) (now : ℕ) : (armed config now).Searching := by
  have most : Ndp.solicitInterval ≤ maxSolicitInterval := by decide
  exact ⟨fun _ => rfl, ⟨le_rfl, most⟩, solicitInterval_whole⟩

theorem start_eq (config : Config) (now : ℕ) : (new config).start now = (armed config now).tick now := rfl

theorem started_fst (config : Config) (now : ℕ) : (started config now).1 = ((armed config now).tick now).1 := by
  rw [started, start_eq]

theorem started_snd (config : Config) (now : ℕ) : (started config now).2 = now := rfl

theorem started_searching (config : Config) (now : ℕ) : (started config now).1.Searching := by
  rw [started_fst]
  exact tick_searching (armed_searching config now) now

theorem receiveRouter_idle {e : Engine} (idle : e.Idle) (now : ℕ) (source : Ipv6Addr) (ra : RouterAdvert) :
    (e.receiveRouter now source ra).Idle := by
  intro soliciting
  obtain ⟨-, none, -⟩ | ⟨-, same, routers⟩ := receiveRouter_schedule e now source ra
  · rw [none] at soliciting
    contradiction
  · rw [solicitAt_congr same] at soliciting
    rw [routers]
    have gone := idle soliciting
    rw [SortedMap.isEmpty_iff] at gone ⊢
    rw [gone]
    rfl

theorem receive_searching (sha1 : Bytes → BitVec 160) {e : Engine} (searching : e.Searching) (now : ℕ)
    (source : Ipv6Addr) (body : Bytes) : (e.receive sha1 now source body).1.Searching := by
  cases decoded : RouterAdvert.decode body with
  | none =>
    rw [receive_undecodable sha1 e now source decoded]
    exact searching
  | some ra =>
    obtain ⟨routers, same, -⟩ := receive_schedule sha1 e now source decoded
    obtain ⟨told, schedule⟩ := e.advertised_schedule sha1 now source ra
    have interval : (e.advertised sha1 now source ra).solicitInterval = e.solicitInterval :=
      (e.advertised_frame sha1 now source ra).1
    have advertised : (e.advertised sha1 now source ra).Searching := by
      refine ⟨?_, ?_, ?_⟩
      · have idle := receiveRouter_idle searching.idle now source ra
        rw [Idle, told, solicitAt_congr schedule]
        exact idle
      · rw [Paced, interval]
        exact searching.paced
      · rw [Whole, interval]
        exact searching.whole
    have expired := expire_searching advertised now
    refine ⟨?_, ?_, ?_⟩
    · rw [Idle, routers, solicitAt_congr same]
      exact expired.idle
    · exact (receive_spec sha1 now source decoded searching.paced).1.paced
    · rw [Whole, interval_congr same]
      exact expired.whole

/-- An operation that looks at the clock: a tick, or an advertisement that decodes. -/
def Op.Heard : Op → Prop
  | .start _ | .tick _ => True
  | .receive _ _ body => (RouterAdvert.decode body).isSome = true

section Runs

variable (sha1 : Bytes → BitVec 160)

theorem next_searching {e : Engine} (op : Op) (noStart : ∀ now, op ≠ .start now) (searching : e.Searching) :
    ((machine sha1).next e op).Searching := by
  cases op with
  | start now => exact absurd rfl (noStart now)
  | tick now =>
    rw [next_tick]
    exact tick_searching searching now
  | receive now source body =>
    rw [next_receive]
    exact receive_searching sha1 searching now source body

theorem next_fresh {e : Engine} {op : Op} (heard : op.Heard) (paced : e.Paced) :
    ((machine sha1).next e op).Fresh op.time := by
  cases op with
  | start now =>
    rw [next_start]
    exact (start_spec now).1.fresh
  | tick now =>
    rw [next_tick]
    exact (tick_spec now paced).1.fresh
  | receive now source body =>
    obtain ⟨ra, decoded⟩ := Option.isSome_iff_exists.mp heard
    rw [next_receive]
    exact (receive_spec sha1 now source decoded paced).1.fresh

/-- Once lifetimes have been applied, the routers stored are the live ones. -/
theorem Fresh.defaultRouter_eq_none {e : Engine} {now : ℕ} (fresh : e.Fresh now) :
    e.defaultRouter now = none ↔ e.routers.isEmpty = true := by
  rw [defaultRouter, Option.map_eq_none_iff, List.find?_eq_none, SortedMap.isEmpty, List.isEmpty_iff]
  constructor
  · intro ended
    refine List.eq_nil_iff_forall_not_mem.mpr fun entry member => ended entry member ?_
    exact decide_eq_true (fresh.routers entry member)
  · intro none entry member
    rw [none] at member
    contradiction

/-- Lifetimes applied, an engine solicits exactly when it has no router. -/
theorem Searching.soliciting_iff {e : Engine} (searching : e.Searching) {now : ℕ} (fresh : e.Fresh now) :
    e.solicitAt.isSome = true ↔ e.defaultRouter now = none := by
  rw [fresh.defaultRouter_eq_none]
  exact ⟨searching.idle, fresh.soliciting⟩

/-! ## The last router goes -/

theorem expire_soliciting {e : Engine} {due : ℕ} (soliciting : e.solicitAt = some due) (now : ℕ) :
    (e.expire now).schedule = e.schedule := by
  rw [expire_schedule, if_neg]
  rintro ⟨-, none⟩
  rw [none] at soliciting
  contradiction

theorem expire_restarts {e : Engine} (silent : e.solicitAt = none) {now : ℕ}
    (gone : (e.expire now).routers.isEmpty = true) : (e.expire now).schedule = afresh now := by
  rw [expire_schedule, if_pos ⟨gone, silent⟩]

/-- A router that said it is there is there after its advertisement. -/
theorem receive_router (e : Engine) (now : ℕ) (source : Ipv6Addr) {body : Bytes} {ra : RouterAdvert}
    (decoded : RouterAdvert.decode body = some ra) (lasting : 0 < ra.routerLifetime) :
    (e.receive sha1 now source body).1.routers.isEmpty = false := by
  obtain ⟨-, -, inserted⟩ | ⟨zero, -, -⟩ := receiveRouter_schedule e now source ra
  · have ahead : now < now + Duration.fromSecs ra.routerLifetime.toNat := by
      have positive : 0 < ra.routerLifetime.toNat := lasting
      simp only [Duration.fromSecs]
      omega
    have stored : (e.receive sha1 now source body).1.routers.lookup source =
        some (now + Duration.fromSecs ra.routerLifetime.toNat) := by
      rw [(receive_schedule sha1 e now source decoded).1, expire_routers,
        (e.advertised_schedule sha1 now source ra).1, inserted, SortedMap.lookup_filter, SortedMap.lookup_insert_self]
      simp [ahead]
    by_contra gone
    rw [Bool.not_eq_false, SortedMap.isEmpty_iff] at gone
    rw [gone] at stored
    contradiction
  · exact absurd lasting zero

/-- With the last router gone, the schedule starts over in the same operation; a tick also solicits. -/
theorem next_restarts {e : Engine} (searching : e.Searching) (routed : e.routers.isEmpty = false) {op : Op}
    (noStart : ∀ now, op ≠ .start now) (gone : ((machine sha1).next e op).routers.isEmpty = true) :
    ((machine sha1).next e op).solicitInterval = Ndp.solicitInterval ∧
      (Solicits ((machine sha1).output e op) ∨ ((machine sha1).next e op).schedule = afresh op.time) := by
  have silent : e.solicitAt = none := by
    by_contra soliciting
    have empty := searching.idle (Option.isSome_iff_ne_none.mpr soliciting)
    rw [routed] at empty
    contradiction
  cases op with
  | start now => exact absurd rfl (noStart now)
  | tick now =>
    rw [next_tick] at gone
    rw [next_tick, output_tick]
    obtain ⟨routers, cases⟩ := tick_schedule e now
    have restarted := expire_restarts silent (routers ▸ gone)
    have due : (e.expire now).solicitAt = some now := solicitAt_of_schedule restarted
    obtain ⟨ahead, -⟩ | ⟨-, solicits, rng, same⟩ := cases
    · rw [due, Deadline.ahead_some] at ahead
      exact absurd ahead (lt_irrefl now)
    · have interval : (e.expire now).solicitInterval = Ndp.solicitInterval := interval_of_schedule restarted
      have count : (e.expire now).solicits = 0 := congrArg (fun schedule => schedule.2.2) restarted
      refine ⟨?_, .inl solicits⟩
      rw [interval, count] at same
      exact (interval_of_schedule same).trans nextInterval_first
  | receive now source body =>
    rw [next_receive] at gone
    rw [next_receive, output_receive]
    cases decoded : RouterAdvert.decode body with
    | none =>
      rw [receive_undecodable sha1 e now source decoded, routed] at gone
      contradiction
    | some ra =>
      obtain ⟨routers, same, -⟩ := receive_schedule sha1 e now source decoded
      obtain ⟨-, schedule⟩ := e.advertised_schedule sha1 now source ra
      obtain ⟨lasting, -, -⟩ | ⟨-, kept, -⟩ := receiveRouter_schedule e now source ra
      · rw [receive_router sha1 e now source decoded lasting] at gone
        contradiction
      · have still : (e.advertised sha1 now source ra).solicitAt = none :=
          (solicitAt_congr (schedule.trans kept)).trans silent
        have restarted := same.trans (expire_restarts still (routers ▸ gone))
        exact ⟨interval_of_schedule restarted, .inr restarted⟩

/-! ## Between two solicitations -/

/-- The next solicitation is at least nine tenths of the interval after an instant. -/
def Spaced (sent interval : ℕ) (e : Engine) : Prop :=
  e.solicitInterval = interval ∧ ∃ due, e.solicitAt = some due ∧ 10 * sent + 9 * interval ≤ 10 * due

/-- What solicits is a tick at which a solicitation is due, and it leaves the next one spaced from it. -/
theorem next_solicits {e : Engine} (searching : e.Searching) {op : Op} (noStart : ∀ now, op ≠ .start now)
    (solicits : Solicits ((machine sha1).output e op)) :
    (∀ due, e.solicitAt = some due → due ≤ op.time) ∧
      Spaced op.time ((machine sha1).next e op).solicitInterval ((machine sha1).next e op) := by
  cases op with
  | start now => exact absurd rfl (noStart now)
  | tick now =>
    rw [output_tick] at solicits
    rw [next_tick]
    obtain ⟨-, ⟨-, -, none⟩ | ⟨due, -, rng, same⟩⟩ := tick_schedule e now
    · exact absurd solicits none
    · refine ⟨fun moment soliciting => ?_, rfl, _, solicitAt_of_schedule same, ?_⟩
      · have kept : (e.expire now).solicitAt = e.solicitAt := solicitAt_congr (expire_soliciting soliciting now)
        rw [kept, soliciting, Deadline.ahead_some, not_lt] at due
        exact due
      · have least := jitter_least rng
          (nextInterval_whole ((e.expire now).solicits + 1) (expire_searching searching now).whole)
        rw [interval_of_schedule same, Op.time]
        omega
  | receive now source body =>
    rw [output_receive] at solicits
    cases decoded : RouterAdvert.decode body with
    | none =>
      rw [receive_undecodable sha1 e now source decoded] at solicits
      obtain ⟨_, none⟩ := solicits
      contradiction
    | some ra => exact absurd solicits (receive_schedule sha1 e now source decoded).2.2

/-- Without a router and without a solicitation, the schedule stays. -/
theorem next_spaced {e : Engine} {sent interval : ℕ} (spaced : Spaced sent interval e) {op : Op}
    (noStart : ∀ now, op ≠ .start now) (quiet : ¬Solicits ((machine sha1).output e op))
    (routerless : ((machine sha1).next e op).routers.isEmpty = true) :
    Spaced sent interval ((machine sha1).next e op) := by
  obtain ⟨length, due, soliciting, far⟩ := spaced
  suffices same : ((machine sha1).next e op).schedule = e.schedule by
    exact ⟨(interval_congr same).trans length, due, (solicitAt_congr same).trans soliciting, far⟩
  cases op with
  | start now => exact absurd rfl (noStart now)
  | tick now =>
    rw [output_tick] at quiet
    rw [next_tick]
    obtain ⟨-, ⟨-, same, -⟩ | ⟨-, solicits, -⟩⟩ := tick_schedule e now
    · exact same.trans (expire_soliciting soliciting now)
    · exact absurd solicits quiet
  | receive now source body =>
    rw [next_receive] at routerless ⊢
    cases decoded : RouterAdvert.decode body with
    | none => rw [receive_undecodable sha1 e now source decoded]
    | some ra =>
      obtain ⟨-, same, -⟩ := receive_schedule sha1 e now source decoded
      obtain ⟨-, schedule⟩ := e.advertised_schedule sha1 now source ra
      obtain ⟨lasting, -, -⟩ | ⟨-, kept, -⟩ := receiveRouter_schedule e now source ra
      · rw [receive_router sha1 e now source decoded lasting] at routerless
        contradiction
      · have still := (solicitAt_congr (schedule.trans kept)).trans soliciting
        exact same.trans ((expire_soliciting still now).trans (schedule.trans kept))

theorem start_solicits (config : Config) (now : ℕ) : Solicits ((new config).start now).2 ∧
    Spaced (started config now).2 (started config now).1.solicitInterval (started config now).1 := by
  rw [started_fst, started_snd, start_eq]
  have set : (armed config now).solicitAt = some now := rfl
  have due : ((armed config now).expire now).solicitAt = some now :=
    (solicitAt_congr (expire_soliciting set now)).trans set
  have searching := expire_searching (armed_searching config now) now
  obtain ⟨-, ⟨ahead, -, -⟩ | ⟨-, solicits, rng, same⟩⟩ := tick_schedule (armed config now) now
  · rw [due, Deadline.ahead_some] at ahead
    exact absurd ahead (lt_irrefl now)
  · refine ⟨solicits, rfl, _, solicitAt_of_schedule same, ?_⟩
    rw [interval_of_schedule same]
    have least := jitter_least rng
      (nextInterval_whole (((armed config now).expire now).solicits + 1) searching.whole)
    omega

/-! ## Whole runs -/

/-- Right after a solicitation: that of the start, or one sent later. -/
def Sent (config : Config) (begun : ℕ) (s : Engine × ℕ) : Prop :=
  s = started config begun ∨ ∃ ops before op, (timed sha1).Run Later (started config begun) ops before ∧
    Later before op ∧ Solicits ((machine sha1).output before.1 op) ∧ s = (timed sha1).next before op

/-- An operation that finds no router and does not solicit. -/
def Waiting (s : Engine × ℕ) (op : Op) : Prop :=
  Later s op ∧ ((machine sha1).next s.1 op).defaultRouter op.time = none ∧ ¬Solicits ((machine sha1).output s.1 op)

theorem reached_searching {config : Config} {begun : ℕ} {ops : List Op} {s : Engine × ℕ}
    (path : (timed sha1).Run Later (started config begun) ops s) : s.1.Searching := by
  refine @Transducer.Run.invariant _ _ _ (timed sha1) Later _ _ _ (fun s => s.1.Searching)
    (started_searching config begun) ?_ path
  intro s op later searching
  rw [timed_next]
  exact next_searching sha1 op later.1 searching

theorem Sent.spaced {config : Config} {begun : ℕ} {s : Engine × ℕ} (sent : Sent sha1 config begun s) :
    s.1.Searching ∧ Spaced s.2 s.1.solicitInterval s.1 := by
  obtain rfl | ⟨ops, before, op, path, later, solicits, rfl⟩ := sent
  · exact ⟨started_searching config begun, (start_solicits config begun).2⟩
  · have searching := reached_searching sha1 path
    rw [timed_next]
    exact ⟨next_searching sha1 op later.1 searching, (next_solicits sha1 searching later.1 solicits).2⟩

theorem waiting_spaced {sent interval : ℕ} {s : Engine × ℕ} {op : Op} (waiting : Waiting sha1 s op)
    (searching : s.1.Searching) (spaced : Spaced sent interval s.1) :
    Spaced sent interval ((machine sha1).next s.1 op) := by
  obtain ⟨later, routerless, quiet⟩ := waiting
  rcases next_current sha1 op searching.paced with ignored | ⟨current, -⟩
  · rw [Transducer.next, ignored]
    exact spaced
  · exact next_spaced sha1 spaced later.1 quiet (current.fresh.defaultRouter_eq_none.mp routerless)

/-- Solicitations go out exactly while there is no router: the schedule is set after the start and after
every operation that looks at the clock if and only if no router is live; it starts over in the operation
that finds the last router gone; the interval never exceeds its ceiling, and nine tenths of it at least
pass from one solicitation to the next. -/
theorem soliciting_while_routerless (config : Config) (begun : ℕ) :
    (Solicits ((new config).start begun).2 ∧
      ((started config begun).1.solicitAt.isSome = true ↔ (started config begun).1.defaultRouter begun = none)) ∧
    (∀ ops e last, (timed sha1).Run Later (started config begun) ops (e, last) →
      e.solicitInterval ≤ maxSolicitInterval ∧
      ∀ op, Later (e, last) op → op.Heard →
        (((machine sha1).next e op).solicitAt.isSome = true ↔
          ((machine sha1).next e op).defaultRouter op.time = none) ∧
        (e.routers.isEmpty = false → ((machine sha1).next e op).defaultRouter op.time = none →
          ((machine sha1).next e op).solicitInterval = Ndp.solicitInterval ∧
            (Solicits ((machine sha1).output e op) ∨ ((machine sha1).next e op).schedule = afresh op.time))) ∧
    ∀ s, Sent sha1 config begun s → ∀ ops t, (timed sha1).Run (Waiting sha1) s ops t →
      ∀ op, Later t op → Solicits ((machine sha1).output t.1 op) →
        9 * s.1.solicitInterval ≤ 10 * (op.time - s.2) := by
  refine ⟨⟨(start_solicits config begun).1, ?_⟩, fun ops e last path => ?_, fun s sent ops t path op later solicits => ?_⟩
  · apply (started_searching config begun).soliciting_iff
    have current := (@start_spec (new config) begun).1
    rw [started]
    dsimp only
    exact current.fresh
  · have searching : e.Searching := reached_searching sha1 path
    refine ⟨searching.paced.2, fun op later heard => ?_⟩
    have fresh := next_fresh sha1 heard searching.paced
    refine ⟨(next_searching sha1 op later.1 searching).soliciting_iff fresh, fun routed gone => ?_⟩
    exact next_restarts sha1 searching routed later.1 (fresh.defaultRouter_eq_none.mp gone)
  · have kept : t.1.Searching ∧ Spaced s.2 s.1.solicitInterval t.1 := by
      refine @Transducer.Run.invariant _ _ _ (timed sha1) (Waiting sha1) _ _ _
        (fun t => t.1.Searching ∧ Spaced s.2 s.1.solicitInterval t.1) sent.spaced ?_ path
      rintro current op waiting ⟨searching, spaced⟩
      rw [timed_next]
      exact ⟨next_searching sha1 op waiting.1.1 searching, waiting_spaced sha1 waiting searching spaced⟩
    obtain ⟨searching, -, due, soliciting, far⟩ := kept
    have past := (next_solicits sha1 searching later.1 solicits).1 due soliciting
    omega

end Runs

end Netd.Model.Ndp.Engine
