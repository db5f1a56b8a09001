import Netd.Model.Dhcp6

/-! # Exchanges of the DHCPv6 client

One of two timers runs once the client has been started: that of the exchange, which an accepted reply stops,
and that of the information, which begins the next exchange. Which datagrams are accepted is said here by their
options, not by the loop that reads them.
-/

namespace Netd.Model.Dhcp6

/-- A reply for a transaction and a client, from a server that says who it is. -/
structure IsReply (txid : BitVec 24) (duid datagram : Bytes) : Prop where
  long : 4 ≤ datagram.length
  kind : datagram.getD 0 0 = reply
  txid : Ndp.slice datagram 1 4 = toBeBytes 3 txid
  ours : ∃ data, (optionClientId, data) ∈ options (datagram.drop 4)
  others : ∀ data, (optionClientId, data) ∈ options (datagram.drop 4) → data = duid
  server : ∃ data, (optionServerId, data) ∈ options (datagram.drop 4) ∧ data ≠ []

namespace Client

/-! ## Replies -/

/-- What the options read so far say of who they are for and from. -/
structure Read (c : Client) (seen : List (U16 × Bytes)) (read : Bool × Bool × Info) : Prop where
  ours : read.1 = true → ∃ data, (optionClientId, data) ∈ seen
  others : ∀ data, (optionClientId, data) ∈ seen → data = c.config.duid
  server : read.2.1 = true → ∃ data, (optionServerId, data) ∈ seen ∧ data ≠ []

namespace Read

variable {c : Client} {seen : List (U16 × Bytes)} {client server : Bool} {info : Info} {code : U16}

/-- An option that does not say who a reply is for. -/
theorem other (before : Read c seen (client, server, info)) (apart : code ≠ optionClientId) (data : Bytes)
    (info' : Info) : Read c (seen ++ [(code, data)]) (client, server, info') := by
  refine ⟨fun ours => ?_, fun own member => ?_, fun named => ?_⟩
  · obtain ⟨own, member⟩ := before.ours ours
    exact ⟨own, List.mem_append_left _ member⟩
  · obtain member | last := List.mem_append.mp member
    · exact before.others own member
    · exact absurd (Prod.mk.inj (List.mem_singleton.mp last)).1.symm apart
  · obtain ⟨id, member, nonempty⟩ := before.server named
    exact ⟨id, List.mem_append_left _ member, nonempty⟩

theorem next {read after : Bool × Bool × Info} {entry : U16 × Bytes} (before : Read c seen read)
    (step : c.readOption read entry = some after) : Read c (seen ++ [entry]) after := by
  obtain ⟨client, server, info⟩ := read
  obtain ⟨code, data⟩ := entry
  simp only [readOption] at step
  split at step
  · next isClient =>
    split at step
    · contradiction
    · next same =>
      obtain rfl := Option.some.inj step
      subst isClient
      refine ⟨fun _ => ⟨data, List.mem_append_right _ (List.mem_singleton_self _)⟩, fun own member => ?_,
        fun named => ?_⟩
      · obtain member | last := List.mem_append.mp member
        · exact before.others own member
        · obtain ⟨-, rfl⟩ := Prod.mk.inj (List.mem_singleton.mp last)
          exact not_not.mp same
      · obtain ⟨id, member, nonempty⟩ := before.server named
        exact ⟨id, List.mem_append_left _ member, nonempty⟩
  next apart =>
  split at step
  · next isServer =>
    obtain rfl := Option.some.inj step
    subst isServer
    have extended := before.other apart data info
    refine ⟨extended.ours, extended.others, fun named => ?_⟩
    exact ⟨data, List.mem_append_right _ (List.mem_singleton_self _), by simpa using named⟩
  split at step
  · obtain rfl := Option.some.inj step
    exact before.other apart data _
  split at step
  · obtain rfl := Option.some.inj step
    exact before.other apart data _
  · obtain rfl := Option.some.inj step
    exact before.other apart data _

/-- The loop over the options of a reply. -/
theorem foldlM {entries : List (U16 × Bytes)} {read after : Bool × Bool × Info} (before : Read c seen read)
    (run : entries.foldlM c.readOption read = some after) : Read c (seen ++ entries) after := by
  induction entries generalizing seen read with
  | nil =>
    obtain rfl := Option.some.inj run
    rwa [List.append_nil]
  | cons entry rest ih =>
    rw [List.foldlM_cons] at run
    obtain ⟨middle, step, run⟩ := Option.bind_eq_some_iff.mp run
    have whole := ih (before.next step) run
    rwa [List.append_assoc, List.singleton_append] at whole

end Read

/-- What is taken for a reply is one. -/
theorem isReply_of_parseReply {c : Client} {datagram : Bytes} {info : Info} (read : c.parseReply datagram = some info) :
    IsReply c.txid c.config.duid datagram := by
  unfold parseReply at read
  split at read
  · contradiction
  next framed =>
  split at read
  · next run =>
    have nothing : Read c [] (false, false, ⟨[], []⟩) :=
      ⟨(fun ours => nomatch ours), (fun _ member => nomatch member), (fun named => nomatch named)⟩
    have all := nothing.foldlM run
    rw [List.nil_append] at all
    obtain ⟨long, kind, txid⟩ := not_or.mp framed |>.imp id not_or.mp
    exact ⟨Nat.not_lt.mp long, not_not.mp kind, not_not.mp txid, all.ours rfl, all.others, all.server rfl⟩
  · contradiction

/-- A datagram that is no reply to the running exchange changes nothing. -/
theorem receive_other {c : Client} (now : ℕ) {datagram : Bytes} (other : ¬IsReply c.txid c.config.duid datagram) :
    c.receive now datagram = (c, []) := by
  unfold receive
  split
  · rfl
  · split
    · rfl
    · next read => exact absurd (isReply_of_parseReply read) other

/-- An option that does not name another client is read, and says for whom or from whom if it says either. -/
theorem readOption_own (c : Client) (client server : Bool) (info : Info) {code : U16} {data : Bytes}
    (own : code = optionClientId → data = c.config.duid) :
    ∃ info', c.readOption (client, server, info) (code, data) =
      some (client || code == optionClientId, if code = optionServerId then !data.isEmpty else server, info') := by
  simp only [readOption]
  by_cases isClient : code = optionClientId
  · subst isClient
    have apart : optionClientId ≠ optionServerId := by decide
    rw [if_pos rfl, if_neg (not_not.mpr (own rfl)), if_neg apart, beq_self_eq_true, Bool.or_true]
    exact ⟨info, rfl⟩
  · rw [if_neg isClient, beq_false_of_ne isClient, Bool.or_false]
    split_ifs
    · exact ⟨info, rfl⟩
    · exact ⟨_, rfl⟩
    · exact ⟨_, rfl⟩
    · exact ⟨info, rfl⟩

/-- A list of options that names this client only, and no server without an identifier, is read to its end. -/
theorem foldlM_own {c : Client} {entries : List (U16 × Bytes)}
    (own : ∀ data, (optionClientId, data) ∈ entries → data = c.config.duid)
    (named : ∀ data, (optionServerId, data) ∈ entries → data ≠ []) (client server : Bool) (info : Info) :
    ∃ info', entries.foldlM c.readOption (client, server, info) =
      some (client || entries.any (·.1 == optionClientId), server || entries.any (·.1 == optionServerId), info') := by
  induction entries generalizing client server info with
  | nil => exact ⟨info, by simp⟩
  | cons entry rest ih =>
    obtain ⟨code, data⟩ := entry
    have ours (same : code = optionClientId) : data = c.config.duid := own data (same ▸ List.mem_cons_self)
    obtain ⟨middle, read⟩ := c.readOption_own client server info ours
    have rest := ih (fun data member => own data (List.mem_cons_of_mem _ member))
      (fun data member => named data (List.mem_cons_of_mem _ member)) (client || code == optionClientId)
      (if code = optionServerId then !data.isEmpty else server) middle
    obtain ⟨info', last⟩ := rest
    refine ⟨info', ?_⟩
    rw [List.foldlM_cons, read]
    refine last.trans ?_
    rw [List.any_cons, List.any_cons, Bool.or_assoc]
    by_cases isServer : code = optionServerId
    · have given : data ≠ [] := named data (isServer ▸ List.mem_cons_self)
      have nonempty : (!data.isEmpty) = true := by simpa using given
      rw [if_pos isServer, nonempty, isServer, beq_self_eq_true, Bool.true_or, Bool.or_true]
    · rw [if_neg isServer, beq_false_of_ne isServer, Bool.false_or]

/-- A reply whose servers all say who they are is taken for one. -/
theorem parseReply_of_isReply {c : Client} {datagram : Bytes} (reply : IsReply c.txid c.config.duid datagram)
    (named : ∀ data, (optionServerId, data) ∈ options (datagram.drop 4) → data ≠ []) :
    ∃ info, c.parseReply datagram = some info := by
  obtain ⟨info, read⟩ := foldlM_own reply.others named false false ⟨[], []⟩
  obtain ⟨own, client⟩ := reply.ours
  obtain ⟨id, server, _⟩ := reply.server
  have ours : (options (datagram.drop 4)).any (·.1 == optionClientId) = true :=
    List.any_eq_true.mpr ⟨_, client, beq_self_eq_true _⟩
  have theirs : (options (datagram.drop 4)).any (·.1 == optionServerId) = true :=
    List.any_eq_true.mpr ⟨_, server, beq_self_eq_true _⟩
  have framed : ¬(datagram.length < 4 ∨ datagram.getD 0 0 ≠ Dhcp6.reply ∨
      Ndp.slice datagram 1 4 ≠ toBeBytes 3 c.txid) := by
    rintro (short | kind | txid)
    · exact absurd reply.long (Nat.not_le.mpr short)
    · exact kind reply.kind
    · exact txid reply.txid
  exact ⟨info, by rw [parseReply, if_neg framed, read, ours, theirs]; rfl⟩

/-- It ends the exchange. -/
theorem receive_reply {c : Client} (now : ℕ) {datagram : Bytes} (asking : c.retransmitAt.isSome = true)
    (reply : IsReply c.txid c.config.duid datagram)
    (named : ∀ data, (optionServerId, data) ∈ options (datagram.drop 4) → data ≠ []) :
    (c.receive now datagram).1.retransmitAt = none ∧ (c.receive now datagram).1.refreshAt.isSome = true ∧
      ∃ info, c.parseReply datagram = some info ∧ (c.receive now datagram).1.info = some info := by
  obtain ⟨info, read⟩ := parseReply_of_isReply reply named
  have running : ¬c.retransmitAt.isNone = true := by
    rw [Option.isNone_iff_eq_none]
    exact Option.isSome_iff_ne_none.mp asking
  rw [receive, if_neg running, read]
  dsimp only
  split_ifs with same
  · exact ⟨rfl, rfl, info, rfl, same⟩
  · exact ⟨rfl, rfl, info, rfl, rfl⟩

/-! ## The two timers -/

/-- A start. -/
def Op.starts : Op → Bool
  | .start _ => true
  | .tick _ | .receive .. => false

/-- The timers of a client: neither before the first start, and then one of the two. -/
inductive Timers (c : Client) : Bool → Prop
  | unstarted (retransmit : c.retransmitAt = none) (refresh : c.refreshAt = none) : Timers c false
  | asking {started : Bool} {due : ℕ} (retransmit : c.retransmitAt = some due) (refresh : c.refreshAt = none) :
      Timers c started
  | informed {started : Bool} {due : ℕ} (retransmit : c.retransmitAt = none) (refresh : c.refreshAt = some due) :
      Timers c started

/-- A client with its timers, and an interval that is a second at least. -/
structure Valid (c : Client) (started : Bool) : Prop where
  timers : Timers c started
  interval : firstRetransmit ≤ c.retransmitInterval

theorem jitter_pos (rng : U64) {interval : ℕ} (long : firstRetransmit ≤ interval) : 0 < (jitter rng interval).1 := by
  simp only [firstRetransmit, Duration.fromSecs] at long
  have millis : 1000 ≤ Duration.asMillis interval := by
    simp only [Duration.asMillis]
    omega
  simp only [jitter, Duration.fromMillis]
  omega

/-- A request goes out, and the next is later. -/
def Asks (now : ℕ) (ticked : Client × List Action) : Prop :=
  (∃ message, ticked.2 = [.send message]) ∧ ticked.1.refreshAt = none ∧
    firstRetransmit ≤ ticked.1.retransmitInterval ∧ ∃ due, ticked.1.retransmitAt = some due ∧ now < due

theorem tick_retransmit {c : Client} {now due : ℕ} (interval : firstRetransmit ≤ c.retransmitInterval)
    (retransmit : c.retransmitAt = some due) (refresh : c.refreshAt = none) (reached : due ≤ now) :
    Asks now (c.tick now) ∧ (c.tick now).1.info = c.info := by
  have resend : c.retransmitAt.any (· ≤ now) = true := by rw [retransmit]; exact decide_eq_true reached
  have fresh : c.refreshAt.any (· ≤ now) = false := by rw [refresh]; rfl
  have later := jitter_pos c.rng interval
  simp only [tick, fresh, resend, Bool.false_eq_true, ↓reduceIte]
  refine ⟨⟨⟨_, rfl⟩, refresh, ?_, _, rfl, ?_⟩, trivial⟩
  · simp only [firstRetransmit, maxRetransmit, Duration.fromSecs] at interval ⊢
    omega
  · omega

theorem tick_refresh {c : Client} {now due : ℕ} (refresh : c.refreshAt = some due) (reached : due ≤ now) :
    c.tick now = (c.beginExchange now).tick now := by
  have old : c.refreshAt.any (· ≤ now) = true := by rw [refresh]; exact decide_eq_true reached
  have fresh : (c.beginExchange now).refreshAt.any (· ≤ now) = false := rfl
  simp only [tick, old, fresh, Bool.false_eq_true, ↓reduceIte]

theorem beginExchange_tick (c : Client) (now : ℕ) :
    Asks now ((c.beginExchange now).tick now) ∧ ((c.beginExchange now).tick now).1.info = c.info :=
  tick_retransmit (c := c.beginExchange now) le_rfl rfl rfl le_rfl

theorem tick_ahead {c : Client} {now : ℕ} (ahead : Deadline.Ahead now c.nextDeadline) : c.tick now = (c, []) := by
  obtain ⟨resend, fresh⟩ := (Deadline.ahead_sooner _ _).mp ahead
  have old : c.refreshAt.any (· ≤ now) = false := by
    rw [Bool.eq_false_iff, ne_eq, Deadline.any_eq_true_iff]
    exact not_not.mpr fresh
  have early : c.retransmitAt.any (· ≤ now) = false := by
    rw [Bool.eq_false_iff, ne_eq, Deadline.any_eq_true_iff]
    exact not_not.mpr resend
  simp only [tick, old, early, Bool.false_eq_true, ↓reduceIte]

/-- At or after the deadline a tick asks. -/
theorem tick_asks {c : Client} {started : Bool} {now : ℕ} (valid : c.Valid started)
    (reached : ¬Deadline.Ahead now c.nextDeadline) :
    Asks now (c.tick now) ∧ (c.tick now).1.info = c.info := by
  rw [nextDeadline, Deadline.ahead_sooner] at reached
  cases valid.timers with
  | unstarted retransmit refresh =>
    rw [retransmit, refresh] at reached
    exact absurd ⟨Deadline.ahead_none now, Deadline.ahead_none now⟩ reached
  | asking retransmit refresh =>
    rw [retransmit, refresh] at reached
    have due := not_and'.mp reached (Deadline.ahead_none now)
    refine tick_retransmit valid.interval retransmit refresh (Nat.not_lt.mp fun early => ?_)
    exact due (Deadline.ahead_some.mpr early)
  | informed retransmit refresh =>
    rw [retransmit, refresh] at reached
    have due := not_and.mp reached (Deadline.ahead_none now)
    rw [tick_refresh refresh (Nat.not_lt.mp fun early => due (Deadline.ahead_some.mpr early))]
    exact c.beginExchange_tick now

theorem Asks.valid {now : ℕ} {ticked : Client × List Action} (asks : Asks now ticked) (started : Bool) :
    ticked.1.Valid started := by
  obtain ⟨-, refresh, interval, due, retransmit, -⟩ := asks
  exact ⟨.asking retransmit refresh, interval⟩

theorem Asks.later {now : ℕ} {ticked : Client × List Action} (asks : Asks now ticked) :
    ∃ due, ticked.1.nextDeadline = some due ∧ now < due := by
  obtain ⟨-, refresh, -, due, retransmit, later⟩ := asks
  exact ⟨due, by rw [nextDeadline, retransmit, refresh]; rfl, later⟩

/-- A reply that was accepted: the exchange is over, and the next one begins ten minutes later at the earliest. -/
structure Accepted (now : ℕ) (c : Client) (received : Client × List Action) : Prop where
  ran : c.retransmitAt.isSome = true
  ended : received.1.retransmitAt = none
  refresh : ∃ due, received.1.refreshAt = some due ∧ now + refreshMinimum ≤ due
  interval : received.1.retransmitInterval = c.retransmitInterval
  told : (received.1.info = c.info ∧ received.2 = []) ∨ (received.1.info ≠ c.info ∧ received.2 = [.changed])

/-- A datagram is ignored or accepted. -/
theorem receive_cases (c : Client) (now : ℕ) (datagram : Bytes) :
    c.receive now datagram = (c, []) ∨ Accepted now c (c.receive now datagram) := by
  unfold receive
  split
  · exact .inl rfl
  next ran =>
  split
  · exact .inl rfl
  · next info read =>
    right
    have exchange : c.retransmitAt.isSome = true := by simpa [Option.isSome_iff_ne_none] using ran
    have least : now + refreshMinimum ≤ now + max ((refreshTime datagram).getD refreshDefault) refreshMinimum :=
      Nat.add_le_add_left (le_max_right _ _) now
    dsimp only
    split
    · next same => exact ⟨exchange, rfl, ⟨_, rfl, least⟩, rfl, .inl ⟨rfl, rfl⟩⟩
    · next other => exact ⟨exchange, rfl, ⟨_, rfl, least⟩, rfl, .inr ⟨fun same => other same.symm, rfl⟩⟩

theorem Accepted.valid {now : ℕ} {c : Client} {received : Client × List Action} {started : Bool}
    (accepted : Accepted now c received) (valid : c.Valid started) : received.1.Valid started := by
  obtain ⟨-, ended, ⟨due, refresh, -⟩, interval, -⟩ := accepted
  exact ⟨.informed ended refresh, by rw [interval]; exact valid.interval⟩

/-! ## Runs -/

theorem valid_next {c : Client} {started : Bool} (op : Op) (valid : c.Valid started) :
    (machine.next c op).Valid (started || op.starts) := by
  cases op with
  | start now => exact (c.beginExchange_tick now).1.valid _
  | tick now =>
    rw [Op.starts, Bool.or_false]
    by_cases ahead : Deadline.Ahead now c.nextDeadline
    · rw [show machine.next c (.tick now) = c from congrArg Prod.fst (tick_ahead ahead)]
      exact valid
    · exact (tick_asks valid ahead).1.valid started
  | receive now datagram =>
    rw [Op.starts, Bool.or_false]
    obtain ignored | accepted := c.receive_cases now datagram
    · rw [show machine.next c (.receive now datagram) = c from congrArg Prod.fst ignored]
      exact valid
    · exact accepted.valid valid

theorem valid_run {c : Client} {started : Bool} (valid : c.Valid started) (ops : List Op) :
    (machine.run c ops).Valid (started || ops.any Op.starts) := by
  induction ops generalizing c started with
  | nil => rwa [List.any_nil, Bool.or_false]
  | cons op rest ih =>
    rw [List.any_cons, ← Bool.or_assoc]
    exact ih (valid_next op valid)

/-- An operation that begins an exchange: a start, or a tick once the information is old. -/
def Begins (c : Client) : Op → Prop
  | .start _ => True
  | .tick now => ¬Deadline.Ahead now c.refreshAt
  | .receive .. => False

/-- Between exchanges nothing happens. -/
theorem between_exchanges {c : Client} (ended : c.retransmitAt = none) (op : Op) (within : ¬c.Begins op) :
    machine.step c op = (c, []) := by
  cases op with
  | start now => exact absurd trivial within
  | tick now =>
    refine tick_ahead ((Deadline.ahead_sooner _ _).mpr ⟨?_, not_not.mp within⟩)
    rw [ended]
    exact Deadline.ahead_none now
  | receive now datagram =>
    change c.receive now datagram = (c, [])
    rw [receive, ended]
    rfl

/-- Nothing is accepted between exchanges, however long they are apart. -/
theorem no_second_reply {c d : Client} (ended : c.retransmitAt = none) {ops : List Op}
    (path : machine.Run (fun c op => ¬Begins c op) c ops d) (now : ℕ) (datagram : Bytes) :
    d.receive now datagram = (d, []) := by
  have same : d = c := by
    refine @Transducer.Run.invariant _ _ _ machine _ _ _ _ (fun e => e = c) rfl ?_ path
    rintro _ op within rfl
    exact congrArg Prod.fst (between_exchanges ended op within)
  rw [same]
  exact between_exchanges ended (.receive now datagram) (fun begins => begins)

/-- What holds of a client in every run. -/
structure Sound (started : Bool) (c : Client) : Prop where
  timers : started = true → (c.retransmitAt.isSome = true ∧ c.refreshAt = none) ∨
    (c.retransmitAt = none ∧ c.refreshAt.isSome = true)
  sends : ∀ now, (∃ message, .send message ∈ (c.tick now).2) ↔ ∃ due, c.nextDeadline = some due ∧ due ≤ now
  later : ∀ now message, .send message ∈ (c.tick now).2 →
    ∃ due, (c.tick now).1.nextDeadline = some due ∧ now < due
  others : ∀ now datagram, ¬IsReply c.txid c.config.duid datagram → c.receive now datagram = (c, [])
  heeded : ∀ now datagram, c.retransmitAt.isSome = true → IsReply c.txid c.config.duid datagram →
    (∀ data, (optionServerId, data) ∈ options (datagram.drop 4) → data ≠ []) →
      (c.receive now datagram).1.retransmitAt = none ∧ (c.receive now datagram).1.refreshAt.isSome = true ∧
        ∃ info, c.parseReply datagram = some info ∧ (c.receive now datagram).1.info = some info
  once : ∀ now datagram, c.receive now datagram ≠ (c, []) → ∀ middle d,
    machine.Run (fun c op => ¬Begins c op) (c.receive now datagram).1 middle d →
      ∀ again copy, d.receive again copy = (d, [])
  refresh : ∀ now datagram, c.receive now datagram ≠ (c, []) →
    ∃ due, (c.receive now datagram).1.refreshAt = some due ∧ now + refreshMinimum ≤ due
  changed : ∀ op, .changed ∈ machine.output c op ↔ (machine.next c op).info ≠ c.info

theorem Valid.exchange {c : Client} {started : Bool} (valid : c.Valid started) (running : started = true) :
    (c.retransmitAt.isSome = true ∧ c.refreshAt = none) ∨ (c.retransmitAt = none ∧ c.refreshAt.isSome = true) := by
  cases valid.timers with
  | unstarted => contradiction
  | asking retransmit refresh => exact .inl ⟨by rw [retransmit]; rfl, refresh⟩
  | informed retransmit refresh => exact .inr ⟨retransmit, by rw [refresh]; rfl⟩

theorem Valid.sends {c : Client} {started : Bool} (valid : c.Valid started) (now : ℕ) :
    (∃ message, .send message ∈ (c.tick now).2) ↔ ∃ due, c.nextDeadline = some due ∧ due ≤ now := by
  by_cases ahead : Deadline.Ahead now c.nextDeadline
  · rw [tick_ahead ahead]
    constructor
    · rintro ⟨_, none⟩
      contradiction
    · rintro ⟨due, next, reached⟩
      exact absurd (ahead due next) (Nat.not_lt.mpr reached)
  · obtain ⟨⟨⟨message, sent⟩, -⟩, -⟩ := tick_asks valid ahead
    constructor
    · intro _
      cases next : c.nextDeadline with
      | none =>
        rw [next] at ahead
        exact absurd (Deadline.ahead_none now) ahead
      | some due =>
        rw [next, Deadline.ahead_some] at ahead
        exact ⟨due, rfl, Nat.not_lt.mp ahead⟩
    · intro _
      exact ⟨message, by rw [sent]; exact List.mem_singleton_self _⟩

theorem Asks.silent {now : ℕ} {ticked : Client × List Action} (asks : Asks now ticked) : .changed ∉ ticked.2 := by
  obtain ⟨⟨message, sent⟩, -⟩ := asks
  rw [sent]
  simp

theorem Valid.changed {c : Client} {started : Bool} (valid : c.Valid started) (op : Op) :
    .changed ∈ machine.output c op ↔ (machine.next c op).info ≠ c.info := by
  cases op with
  | start now =>
    obtain ⟨asks, info⟩ := c.beginExchange_tick now
    exact iff_of_false asks.silent (not_not.mpr info)
  | tick now =>
    by_cases ahead : Deadline.Ahead now c.nextDeadline
    · have idle : machine.step c (.tick now) = (c, []) := tick_ahead ahead
      rw [Transducer.output, Transducer.next, idle]
      exact iff_of_false List.not_mem_nil (not_not.mpr rfl)
    · obtain ⟨asks, info⟩ := tick_asks valid ahead
      exact iff_of_false asks.silent (not_not.mpr info)
  | receive now datagram =>
    obtain ignored | accepted := c.receive_cases now datagram
    · have idle : machine.step c (.receive now datagram) = (c, []) := ignored
      rw [Transducer.output, Transducer.next, idle]
      exact iff_of_false List.not_mem_nil (not_not.mpr rfl)
    · change .changed ∈ (c.receive now datagram).2 ↔ (c.receive now datagram).1.info ≠ c.info
      obtain ⟨same, silent⟩ | ⟨other, told⟩ := accepted.told
      · rw [silent]
        exact iff_of_false List.not_mem_nil (not_not.mpr same)
      · rw [told]
        exact iff_of_true (List.mem_singleton_self _) other

/-- Two timers that hand over to each other, and one reply an exchange, in every run. -/
theorem exchanges_sound (config : Config) (ops : List Op) :
    Sound (ops.any Op.starts) (machine.run (new config) ops) := by
  have valid := valid_run (show (new config).Valid false from ⟨.unstarted rfl rfl, le_rfl⟩) ops
  rw [Bool.false_or] at valid
  generalize machine.run (new config) ops = c at valid
  have accepted {now : ℕ} {datagram : Bytes} (heard : c.receive now datagram ≠ (c, [])) :
      Accepted now c (c.receive now datagram) := (c.receive_cases now datagram).resolve_left heard
  refine ⟨valid.exchange, valid.sends, ?_, fun now _ other => receive_other now other,
    fun now _ asking reply named => receive_reply now asking reply named, ?_, ?_, valid.changed⟩
  · intro now message sent
    have reached : ¬Deadline.Ahead now c.nextDeadline := by
      intro ahead
      rw [tick_ahead ahead] at sent
      contradiction
    exact (tick_asks valid reached).1.later
  · intro now datagram heard middle d path again copy
    exact no_second_reply (accepted heard).ended path again copy
  · intro now datagram heard
    exact (accepted heard).refresh

end Client

end Netd.Model.Dhcp6
