import Netd.Model.Dhcp4.Client
import Netd.Proofs.Dhcp4.Lease

/-! # What one operation of the DHCPv4 client can do

Seven states, five operations and the transition helpers between them reduce to five moves: an
input is ignored, the client stops, it asks for an address without a lease, it renews the lease it
holds, or it binds. Each move says what it leaves in the fields that the timers and the caller
depend on. `Valid` is the invariant that every move keeps; everything proved about runs of the
client is derived from the moves, not from the bodies of the operations.
-/

namespace Netd.Model.Dhcp4

/-- States that wait for an answer without holding a lease. -/
def State.acquires : State → Bool
  | .selecting | .requesting | .rebooting => true
  | .init | .bound | .renewing | .rebinding => false

/-- States that wait for an answer and repeat their message until it comes. -/
def State.asks : State → Bool
  | .selecting | .requesting | .rebooting | .renewing | .rebinding => true
  | .init | .bound => false

namespace Client

/-- The server identifier of the stored offer. -/
def offerServer (c : Client) : Option Ipv4Addr :=
  c.offer.bind fun offer => offer.options.ipv4 option.serverId

/-- The invariant of every client that was driven through its operations only. -/
structure Valid (c : Client) : Prop where
  lease_isSome : c.lease.isSome = c.state.holds
  boundAt_isSome : c.boundAt.isSome = c.state.holds
  shaped : ∀ lease ∈ c.lease, lease.Shaped
  offered : c.state = .requesting → c.offerServer.isSome
  waiting : c.retransmitAt.isSome = c.state.asks
  backoff_ge : firstBackoff ≤ c.backoff
  backoff_le : c.backoff ≤ maxBackoff

theorem valid_new (config : Config) (created : ℕ) : (new config created).Valid where
  lease_isSome := rfl
  boundAt_isSome := rfl
  shaped := fun _ member => nomatch member
  offered := fun state => nomatch state
  waiting := rfl
  backoff_ge := le_rfl
  backoff_le := show firstBackoff ≤ maxBackoff by decide

/-- A held lease, with the instant it was obtained. -/
theorem Valid.held {c : Client} (valid : c.Valid) (holds : c.state.holds = true) :
    ∃ lease boundAt, c.lease = some lease ∧ c.boundAt = some boundAt ∧ lease.Shaped := by
  obtain ⟨lease, leaseEq⟩ := Option.isSome_iff_exists.mp (valid.lease_isSome.trans holds)
  obtain ⟨boundAt, boundEq⟩ := Option.isSome_iff_exists.mp (valid.boundAt_isSome.trans holds)
  exact ⟨lease, boundAt, leaseEq, boundEq, valid.shaped lease leaseEq⟩

theorem Valid.unheld {c : Client} (valid : c.Valid) (holds : c.state.holds = false) :
    c.lease = none ∧ c.boundAt = none :=
  ⟨Option.isSome_eq_false_iff.mp (valid.lease_isSome.trans holds) |> Option.isNone_iff_eq_none.mp,
    Option.isSome_eq_false_iff.mp (valid.boundAt_isSome.trans holds) |> Option.isNone_iff_eq_none.mp⟩

/-- A client without a lease that has just sent, at `now`, and will send again later. -/
structure Acquiring (now : ℕ) (c : Client) : Prop where
  acquires : c.state.acquires = true
  lease_none : c.lease = none
  boundAt_none : c.boundAt = none
  offered : c.state = .requesting → c.offerServer.isSome
  scheduled : ∃ due, c.retransmitAt = some due ∧ now < due
  backoff_ge : firstBackoff ≤ c.backoff
  backoff_le : c.backoff ≤ maxBackoff

/-- A client holding a lease that has just asked for it again, at `now`, and will repeat that. -/
structure Renewal (now : ℕ) (before c : Client) : Prop where
  state : c.state = .renewing ∨ c.state = .rebinding
  held : before.state.holds = true
  lease_eq : c.lease = before.lease
  boundAt_eq : c.boundAt = before.boundAt
  scheduled : ∃ due, c.retransmitAt = some due ∧ now < due
  backoff_eq : c.backoff = before.backoff

/-- What a tick, a message or a renewal request at `now` can do. -/
inductive Move (now : ℕ) (c : Client) : Client → List Action → Prop
  /-- Nothing was due, or the input was not for us. -/
  | ignored : Move now c c []
  /-- A client without a lease asks, possibly reporting that nobody has answered so far. -/
  | asks {after : Client} {notices : List Action} {message : Message} (unheld : c.lease = none)
      (notice : notices = [] ∨ notices = [.noOffer]) (acquiring : after.Acquiring now) :
      Move now c after (notices ++ [.send message .broadcast])
  /-- The lease is gone, and the client starts over. -/
  | loses {after : Client} {message : Message} (held : c.state.holds = true)
      (acquiring : after.Acquiring now) : Move now c after [.lost, .send message .broadcast]
  /-- The held lease is asked for again. -/
  | renews {after : Client} {message : Message} {destination : Destination}
      (renewal : Renewal now c after) : Move now c after [.send message destination]
  /-- An ACK from a server we listen to was accepted. -/
  | binds {message : Message} {lease : Lease} (accepted : Lease.fromAck message = some lease)
      (trusted : ∀ server ∈ c.chosen, message.options.ipv4 option.serverId = some server) :
      Move now c
        { c with
          noOfferReported := false
          state := .bound
          retransmitAt := none
          boundAt := some now
          lease := some lease
          rebootAddress := some lease.address } [.bound lease]

/-- The client without a lease that came out of sending, and its one message. -/
def Asked (now : ℕ) (sent : Client × List Action) : Prop :=
  sent.1.Acquiring now ∧ ∃ message, sent.2 = [.send message .broadcast]

/-- The client that came out of asking for the lease it holds, and its one message. -/
def Renewed (now : ℕ) (before : Client) (sent : Client × List Action) : Prop :=
  Renewal now before sent.1 ∧ ∃ message destination, sent.2 = [.send message destination]

end Client

/-- Whether an action sends a message. -/
def Action.sends : Action → Bool
  | .send .. => true
  | .bound _ | .noOffer | .lost => false

namespace Client

/-- A move that sends exactly one message. -/
def SendingMove (now : ℕ) (c : Client) (sent : Client × List Action) : Prop :=
  Move now c sent.1 sent.2 ∧ sent.2.countP Action.sends = 1

theorem Asked.sendingMove {now : ℕ} {c : Client} {sent : Client × List Action} (asked : Asked now sent)
    (unheld : c.lease = none) : SendingMove now c sent := by
  obtain ⟨acquiring, message, actions⟩ := asked
  rw [SendingMove, actions]
  exact ⟨.asks unheld (.inl rfl) acquiring, rfl⟩

theorem Asked.move {now : ℕ} {c : Client} {sent : Client × List Action} (asked : Asked now sent)
    (unheld : c.lease = none) : Move now c sent.1 sent.2 := (asked.sendingMove unheld).1

theorem Asked.noOfferMove {now : ℕ} {c : Client} {sent : Client × List Action} (asked : Asked now sent)
    (unheld : c.lease = none) : SendingMove now c (sent.1, .noOffer :: sent.2) := by
  obtain ⟨acquiring, message, actions⟩ := asked
  rw [SendingMove, actions]
  exact ⟨.asks unheld (.inr rfl) acquiring, rfl⟩

theorem Asked.lostMove {now : ℕ} {c : Client} {sent : Client × List Action} (asked : Asked now sent)
    (held : c.state.holds = true) : SendingMove now c (sent.1, .lost :: sent.2) := by
  obtain ⟨acquiring, message, actions⟩ := asked
  rw [SendingMove, actions]
  exact ⟨.loses held acquiring, rfl⟩

theorem Renewed.sendingMove {now : ℕ} {c : Client} {sent : Client × List Action}
    (renewed : Renewed now c sent) : SendingMove now c sent := by
  obtain ⟨renewal, message, destination, actions⟩ := renewed
  rw [SendingMove, actions]
  exact ⟨.renews renewal, rfl⟩

/-! ## Sending -/

private theorem scheduleBackoff_acquiring {c : Client} (now : ℕ) (acquires : c.state.acquires = true)
    (leaseNone : c.lease = none) (boundNone : c.boundAt = none)
    (offered : c.state = .requesting → c.offerServer.isSome)
    (backoffGe : firstBackoff ≤ c.backoff) :
    (c.scheduleBackoff now).Acquiring now where
  acquires := acquires
  lease_none := leaseNone
  boundAt_none := boundNone
  offered := offered
  scheduled := ⟨_, rfl, by simp only [firstBackoff, Duration.fromSecs] at backoffGe ⊢; omega⟩
  backoff_ge := by
    simp only [scheduleBackoff, firstBackoff, maxBackoff, Duration.fromSecs] at backoffGe ⊢
    omega
  backoff_le := min_le_right ..

theorem enterSelecting_asked {c : Client} (now : ℕ) (leaseNone : c.lease = none)
    (boundNone : c.boundAt = none) : Asked now (c.enterSelecting now) :=
  ⟨scheduleBackoff_acquiring now rfl leaseNone boundNone (fun state => nomatch state) le_rfl,
    _, rfl⟩

private theorem sendDiscover_asked {c : Client} (now : ℕ) (state : c.state = .selecting)
    (leaseNone : c.lease = none) (boundNone : c.boundAt = none)
    (backoffGe : firstBackoff ≤ c.backoff) : Asked now (c.sendDiscover now) :=
  ⟨scheduleBackoff_acquiring now (by rw [state]; rfl) leaseNone boundNone
    (fun requesting => by rw [state] at requesting; contradiction) backoffGe, _, rfl⟩

private theorem sendRequestForOffer_asked {c : Client} (now : ℕ) (state : c.state = .requesting)
    (leaseNone : c.lease = none) (boundNone : c.boundAt = none) (offered : c.offerServer.isSome)
    (backoffGe : firstBackoff ≤ c.backoff) : Asked now (c.sendRequestForOffer now) := by
  unfold sendRequestForOffer
  split
  · exact enterSelecting_asked now leaseNone boundNone
  · exact ⟨scheduleBackoff_acquiring now (by rw [state]; rfl) leaseNone boundNone (fun _ => offered)
      backoffGe, _, rfl⟩

private theorem sendRebootRequest_asked {c : Client} (now : ℕ) (state : c.state = .rebooting)
    (leaseNone : c.lease = none) (boundNone : c.boundAt = none)
    (backoffGe : firstBackoff ≤ c.backoff) : Asked now (c.sendRebootRequest now) := by
  unfold sendRebootRequest
  split
  · exact enterSelecting_asked now leaseNone boundNone
  · exact ⟨scheduleBackoff_acquiring now (by rw [state]; rfl) leaseNone boundNone
      (fun requesting => by rw [state] at requesting; contradiction) backoffGe, _, rfl⟩

/-- A renewal keeps the lease and schedules its repetition at least a minute away. -/
theorem sendRenewal_renewed {before c : Client} (now : ℕ) (valid : before.Valid)
    (held : before.state.holds = true) (state : c.state = .renewing ∨ c.state = .rebinding)
    (leaseEq : c.lease = before.lease) (boundEq : c.boundAt = before.boundAt)
    (backoffEq : c.backoff = before.backoff) : Renewed now before (c.sendRenewal now) := by
  obtain ⟨lease, boundAt, leaseSome, boundSome, _⟩ := valid.held held
  have hasLease := leaseEq.trans leaseSome
  have hasBound := boundEq.trans boundSome
  simp only [sendRenewal, hasLease, hasBound]
  refine ⟨⟨state, held, ?_, ?_, ⟨_, rfl, ?_⟩, backoffEq⟩, _, _, rfl⟩
  · exact leaseSome.symm
  · exact boundSome.symm
  · simp only [minRetransmit, Duration.fromSecs]
    omega

theorem enterRenewing_renewed {c : Client} (now : ℕ) (valid : c.Valid) (held : c.state.holds = true) :
    Renewed now c (c.enterRenewing now) := sendRenewal_renewed now valid held (.inl rfl) rfl rfl rfl

theorem enterRebinding_renewed {c : Client} (now : ℕ) (valid : c.Valid) (held : c.state.holds = true) :
    Renewed now c (c.enterRebinding now) := sendRenewal_renewed now valid held (.inr rfl) rfl rfl rfl

/-- Every retransmission is a move that sends. -/
theorem retransmit_sendingMove {c : Client} (now : ℕ) (valid : c.Valid) (asks : c.state.asks = true) :
    SendingMove now c (c.retransmit now) := by
  unfold retransmit
  split
  case h_1 state =>
    obtain ⟨leaseNone, boundNone⟩ := valid.unheld (by rw [state]; rfl)
    dsimp only
    split
    · exact Asked.noOfferMove (sendDiscover_asked now state leaseNone boundNone valid.backoff_ge) leaseNone
    · exact Asked.sendingMove (sendDiscover_asked now state leaseNone boundNone valid.backoff_ge) leaseNone
  case h_2 state =>
    obtain ⟨leaseNone, boundNone⟩ := valid.unheld (by rw [state]; rfl)
    dsimp only
    split
    · exact Asked.sendingMove (enterSelecting_asked now leaseNone boundNone) leaseNone
    · exact Asked.sendingMove (sendRequestForOffer_asked now state leaseNone boundNone (valid.offered state)
        valid.backoff_ge) leaseNone
  case h_3 state =>
    obtain ⟨leaseNone, boundNone⟩ := valid.unheld (by rw [state]; rfl)
    dsimp only
    split
    · exact Asked.sendingMove (enterSelecting_asked now leaseNone boundNone) leaseNone
    · exact Asked.sendingMove (sendRebootRequest_asked now state leaseNone boundNone valid.backoff_ge) leaseNone
  case h_4 state =>
    exact (sendRenewal_renewed now valid (by rw [state]; rfl) (.inl state) rfl rfl rfl).sendingMove
  case h_5 state =>
    exact (sendRenewal_renewed now valid (by rw [state]; rfl) (.inr state) rfl rfl rfl).sendingMove
  case h_6 state => rw [state] at asks; contradiction
  case h_7 state => rw [state] at asks; contradiction

/-! ## Ticks -/

theorem retransmitDue_ahead {c : Client} {now : ℕ} (ahead : Deadline.Ahead now c.retransmitAt) :
    c.retransmitDue now = (c, []) := by
  unfold retransmitDue
  cases due : c.retransmitAt with
  | none => rfl
  | some due' =>
    rw [due, Deadline.ahead_some] at ahead
    simp only [if_neg (not_le.mpr ahead)]

theorem crossBoundary_ahead {c : Client} {now : ℕ} (ahead : Deadline.Ahead now c.boundary) :
    c.crossBoundary now = (c, [], false) := by
  unfold crossBoundary
  unfold boundary at ahead
  split
  · next lease boundAt leaseEq boundEq =>
    rw [leaseEq, boundEq] at ahead
    cases state : c.state <;> simp only [state, Deadline.ahead_some] at ahead ⊢ <;>
      rw [if_neg (not_le.mpr ahead)]
  · rfl

/-- Before the deadline a tick does nothing. -/
theorem tick_ahead {c : Client} {now : ℕ} (ahead : Deadline.Ahead now c.nextDeadline) :
    c.tick now = (c, []) := by
  obtain ⟨resend, crossing⟩ := (Deadline.ahead_sooner _ _).mp ahead
  simp only [tick, crossBoundary_ahead crossing, Bool.false_eq_true, ↓reduceIte,
    retransmitDue_ahead resend, List.append_nil]

/-- With no boundary crossed, a tick at or after the retransmission instant retransmits. -/
theorem tick_retransmit {c : Client} {now due : ℕ} (ahead : Deadline.Ahead now c.boundary)
    (scheduled : c.retransmitAt = some due) (reached : due ≤ now) : c.tick now = c.retransmit now := by
  simp only [tick, crossBoundary_ahead ahead, Bool.false_eq_true, ↓reduceIte, retransmitDue, scheduled,
    if_pos reached, List.nil_append]

/-- A crossing that schedules its own repetition is the whole tick. -/
private theorem tick_of_renewed {c before : Client} {now : ℕ} {sent : Client × List Action}
    (crossed : c.crossBoundary now = (sent.1, sent.2, false)) (renewed : Renewed now before sent) :
    c.tick now = sent := by
  obtain ⟨due, scheduled, later⟩ := renewed.1.scheduled
  have quiet : sent.1.retransmitDue now = (sent.1, []) :=
    retransmitDue_ahead (by rw [scheduled]; exact Deadline.ahead_some.mpr later)
  simp only [tick, crossed, Bool.false_eq_true, ↓reduceIte, quiet, List.append_nil]

/-- T1: a bound client starts renewing. -/
theorem tick_renewing {c : Client} {now boundAt : ℕ} {lease : Lease} (valid : c.Valid)
    (state : c.state = .bound) (leaseEq : c.lease = some lease) (boundEq : c.boundAt = some boundAt)
    (reached : leaseInstant boundAt lease.t1 ≤ now) : c.tick now = c.enterRenewing now :=
  tick_of_renewed (by simp only [crossBoundary, leaseEq, boundEq, state, if_pos reached])
    (enterRenewing_renewed now valid (by rw [state]; rfl))

/-- T2: a renewing client starts rebinding. -/
theorem tick_rebinding {c : Client} {now boundAt : ℕ} {lease : Lease} (valid : c.Valid)
    (state : c.state = .renewing) (leaseEq : c.lease = some lease) (boundEq : c.boundAt = some boundAt)
    (reached : leaseInstant boundAt lease.t2 ≤ now) : c.tick now = c.enterRebinding now :=
  tick_of_renewed (by simp only [crossBoundary, leaseEq, boundEq, state, if_pos reached])
    (enterRebinding_renewed now valid (by rw [state]; rfl))

/-- Expiry: the lease is lost and discovery starts over. -/
theorem tick_expired {c : Client} {now boundAt : ℕ} {lease : Lease}
    (state : c.state = .rebinding) (leaseEq : c.lease = some lease) (boundEq : c.boundAt = some boundAt)
    (reached : leaseInstant boundAt lease.leaseTime ≤ now) :
    c.tick now = ((enterSelecting { c with lease := none, boundAt := none } now).1,
      .lost :: (enterSelecting { c with lease := none, boundAt := none } now).2) := by
  simp only [tick, crossBoundary, leaseEq, boundEq, state, if_pos reached, ↓reduceIte]

/-- A boundary that was reached is crossed by the tick. -/
private theorem tick_crossing {c : Client} {now : ℕ} (valid : c.Valid)
    (reached : ¬ Deadline.Ahead now c.boundary) : SendingMove now c (c.tick now) := by
  unfold boundary at reached
  split at reached
  case h_2 => exact absurd (Deadline.ahead_none now) reached
  case h_1 lease boundAt leaseEq boundEq =>
    split at reached
    case h_1 state =>
      rw [Deadline.ahead_some, not_lt] at reached
      rw [tick_renewing valid state leaseEq boundEq reached]
      exact (enterRenewing_renewed now valid (by rw [state]; rfl)).sendingMove
    case h_2 state =>
      rw [Deadline.ahead_some, not_lt] at reached
      rw [tick_rebinding valid state leaseEq boundEq reached]
      exact (enterRebinding_renewed now valid (by rw [state]; rfl)).sendingMove
    case h_3 state =>
      rw [Deadline.ahead_some, not_lt] at reached
      rw [tick_expired state leaseEq boundEq reached]
      exact Asked.lostMove (enterSelecting_asked now rfl rfl) (by rw [state]; rfl)
    all_goals exact absurd (Deadline.ahead_none now) reached

/-- At or after the deadline a tick sends. -/
theorem tick_sendingMove {c : Client} {now : ℕ} (valid : c.Valid)
    (reached : ¬ Deadline.Ahead now c.nextDeadline) : SendingMove now c (c.tick now) := by
  by_cases boundary : Deadline.Ahead now c.boundary
  · have resend : ¬ Deadline.Ahead now c.retransmitAt := fun ahead =>
      reached ((Deadline.ahead_sooner _ _).mpr ⟨ahead, boundary⟩)
    cases scheduled : c.retransmitAt with
    | none => exact absurd (scheduled ▸ Deadline.ahead_none now) resend
    | some due =>
      rw [scheduled, Deadline.ahead_some, not_lt] at resend
      rw [tick_retransmit boundary scheduled resend]
      exact retransmit_sendingMove now valid (valid.waiting.symm.trans (by rw [scheduled]; rfl))
  · exact tick_crossing valid boundary

theorem tick_move {c : Client} (now : ℕ) (valid : c.Valid) :
    Move now c (c.tick now).1 (c.tick now).2 := by
  by_cases ahead : Deadline.Ahead now c.nextDeadline
  · rw [tick_ahead ahead]
    exact .ignored
  · exact (tick_sendingMove valid ahead).1

/-! ## Messages and requests -/

theorem renewNow_move {c : Client} (now : ℕ) (valid : c.Valid) :
    Move now c (c.renewNow now).1 (c.renewNow now).2 := by
  unfold renewNow
  split
  · next holds => exact (enterRenewing_renewed now valid holds).sendingMove.1
  · exact .ignored

private theorem receiveAck_move {c : Client} (now : ℕ) {message : Message}
    (trusted : ∀ server ∈ c.chosen, message.options.ipv4 option.serverId = some server) :
    Move now c (c.receiveAck now message).1 (c.receiveAck now message).2 := by
  unfold receiveAck
  split
  · next lease accepted => exact .binds accepted trusted
  · exact .ignored

private theorem enterRequesting_asked {c : Client} (now : ℕ) (leaseNone : c.lease = none)
    (boundNone : c.boundAt = none) (offered : c.offerServer.isSome) : Asked now (c.enterRequesting now) :=
  sendRequestForOffer_asked now rfl leaseNone boundNone offered le_rfl

/-- What a message from the right server does, for ACKs and NAKs from nobody else. -/
private theorem dispatch_move {c : Client} (now : ℕ) {kind : MessageType} {message : Message}
    (valid : c.Valid)
    (trusted : kind = .ack ∨ kind = .nak →
      ∀ server ∈ c.chosen, message.options.ipv4 option.serverId = some server) :
    Move now c (c.dispatch now kind message).1 (c.dispatch now kind message).2 := by
  unfold dispatch
  split
  case h_1 state =>
    obtain ⟨leaseNone, boundNone⟩ := valid.unheld (by rw [state]; rfl)
    split
    · exact .ignored
    · next usable =>
      have named : (message.options.ipv4 option.serverId).isSome = true := by
        rw [Bool.or_eq_true, not_or] at usable
        simpa [Option.isSome_iff_ne_none] using usable.2
      exact Asked.move (enterRequesting_asked now leaseNone boundNone named) leaseNone
  case h_6 state | h_7 state =>
    obtain ⟨leaseNone, boundNone⟩ := valid.unheld (by rw [state]; rfl)
    exact Asked.move (enterSelecting_asked now leaseNone boundNone) leaseNone
  case h_8 state | h_9 state =>
    exact (Asked.lostMove (enterSelecting_asked now rfl rfl) (by rw [state]; rfl)).1
  case h_10 => exact .ignored
  all_goals exact receiveAck_move now (trusted (.inl rfl))

theorem receive_move {c : Client} (now : ℕ) (message : Message) (valid : c.Valid) :
    Move now c (c.receive now message).1 (c.receive now message).2 := by
  unfold receive
  split
  · exact .ignored
  · split
    · exact .ignored
    · next kind _ =>
      split
      · exact .ignored
      · next familiar =>
        apply dispatch_move now valid
        intro answer server chosen
        rw [Option.mem_def] at chosen
        rcases answer with rfl | rfl <;> simpa [stranger, chosen] using familiar

theorem start_asked (c : Client) (now : ℕ) (previous : Option Ipv4Addr) :
    Asked now (c.start now previous) := by
  unfold start
  cases previous with
  | none => exact enterSelecting_asked now rfl rfl
  | some address => exact sendRebootRequest_asked now rfl rfl rfl le_rfl

/-- A release tells the server at most, and nobody else anything. -/
theorem release_actions (c : Client) (now : ℕ) :
    (c.release now).2 = [] ∨ ∃ message destination, (c.release now).2 = [.send message destination] := by
  unfold release
  cases c.lease with
  | none => exact .inl rfl
  | some lease => cases c.state.holds <;> simp

/-! ## The invariant -/

theorem Acquiring.valid {c : Client} {now : ℕ} (acquiring : c.Acquiring now) : c.Valid := by
  obtain ⟨acquires, leaseNone, boundNone, offered, ⟨due, scheduled, _⟩, backoffGe, backoffLe⟩ := acquiring
  have holds : c.state.holds = false := by cases state : c.state <;> simp_all [State.acquires, State.holds]
  have asks : c.state.asks = true := by cases state : c.state <;> simp_all [State.acquires, State.asks]
  exact ⟨by rw [leaseNone, holds]; rfl, by rw [boundNone, holds]; rfl,
    fun lease member => by rw [leaseNone] at member; contradiction, offered,
    by rw [scheduled, asks]; rfl, backoffGe, backoffLe⟩

theorem Renewal.valid {before c : Client} {now : ℕ} (valid : before.Valid)
    (renewal : Renewal now before c) : c.Valid := by
  obtain ⟨state, held, leaseEq, boundEq, ⟨due, scheduled, _⟩, backoffEq⟩ := renewal
  have holds : c.state.holds = true := by rcases state with state | state <;> rw [state] <;> rfl
  have asks : c.state.asks = true := by rcases state with state | state <;> rw [state] <;> rfl
  refine ⟨?_, ?_, ?_, fun requesting => ?_, ?_, ?_, ?_⟩
  · rw [leaseEq, holds, valid.lease_isSome, held]
  · rw [boundEq, holds, valid.boundAt_isSome, held]
  · rw [leaseEq]; exact valid.shaped
  · rw [requesting] at holds; contradiction
  · rw [scheduled, asks]; rfl
  · rw [backoffEq]; exact valid.backoff_ge
  · rw [backoffEq]; exact valid.backoff_le

theorem Move.valid {c after : Client} {now : ℕ} {actions : List Action} (valid : c.Valid)
    (move : Move now c after actions) : after.Valid := by
  cases move with
  | ignored => exact valid
  | asks _ _ acquiring => exact acquiring.valid
  | loses _ acquiring => exact acquiring.valid
  | renews renewal => exact renewal.valid valid
  | binds accepted _ =>
    exact ⟨rfl, rfl, fun lease member => Option.mem_some.mp member ▸ Lease.fromAck_shaped accepted,
      (fun requesting => nomatch requesting), rfl, valid.backoff_ge, valid.backoff_le⟩

theorem release_valid {c : Client} (now : ℕ) (valid : c.Valid) : (c.release now).1.Valid :=
  ⟨rfl, rfl, (fun _ member => nomatch member), (fun requesting => nomatch requesting), rfl,
    valid.backoff_ge, valid.backoff_le⟩

/-- Every operation keeps the invariant. -/
theorem machine_valid (c : Client) (op : Op) (valid : c.Valid) : (machine.next c op).Valid := by
  cases op with
  | start now previous => exact (start_asked c now previous).1.valid
  | release now => exact release_valid now valid
  | renewNow now => exact (renewNow_move now valid).valid valid
  | tick now => exact (tick_move now valid).valid valid
  | receive now message => exact (receive_move now message valid).valid valid

/-- Every client that its operations can reach is valid. -/
theorem reachable_valid (config : Config) (created : ℕ) (ops : List Op) :
    (machine.run (new config created) ops).Valid :=
  machine.run_invariant machine_valid (valid_new config created) ops

end Client

end Netd.Model.Dhcp4
