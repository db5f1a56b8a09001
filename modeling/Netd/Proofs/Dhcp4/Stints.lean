import Netd.Proofs.Dhcp4.Moves

/-! # Stints in a state

A client stays in a state for a stint, which a change of state or a start begins. What one operation does to
the stint it meets is one of six turns; the schedule of retransmissions and the reports of an unanswered
client follow from the turns, with the number of messages a stint has sent as the only bookkeeping.
-/

namespace Netd.Model.Dhcp4

/-! ## The kinds of messages -/

namespace Options

theorem messageType_append {options more : Options} {kind : MessageType} (typed : options.messageType = some kind) :
    Options.messageType (options ++ more) = some kind := by
  obtain ⟨data, found, read⟩ := Option.bind_eq_some_iff.mp typed
  obtain ⟨entry, first, rfl⟩ := Option.map_eq_some_iff.mp found
  rw [messageType, get, List.find?_append, first, Option.some_or, Option.map_some, Option.bind_some, read]

end Options

theorem Message.messageType_pushOption {message : Message} {kind : MessageType}
    (typed : message.messageType = some kind) (code : U8) (data : Bytes) :
    (message.pushOption code data).messageType = some kind := Options.messageType_append typed

theorem MessageType.fromU8_toU8 (kind : MessageType) : fromU8 kind.toU8 = some kind := by
  cases kind <;> rfl

namespace Client

theorem commonOptions_messageType (c : Client) {message : Message} (bare : message.options = []) (kind : MessageType) :
    (c.commonOptions message kind).messageType = some kind := by
  have first : (message.pushOption option.messageType [kind.toU8]).messageType = some kind := by
    rw [Message.messageType, Message.pushOption, bare]
    exact kind.fromU8_toU8
  rw [commonOptions]
  have all := Message.messageType_pushOption (Message.messageType_pushOption (Message.messageType_pushOption first
    option.clientId c.config.clientId) option.maxMessageSize (toBeBytes 2 1500#16)) option.parameterRequestList
    parameterRequestList
  cases c.config.hostname with
  | none => exact all
  | some hostname => exact Message.messageType_pushOption all _ _

theorem broadcast_messageType (c : Client) (now : ℕ) (kind : MessageType) :
    (c.commonOptions { c.baseMessage now with broadcast := true } kind).messageType = some kind :=
  c.commonOptions_messageType rfl kind

/-- One message of a kind, and nothing else. -/
def SendsOne (kind : MessageType) (actions : List Action) : Prop :=
  ∃ message destination, actions = [.send message destination] ∧ message.messageType = some kind

theorem SendsOne.messageType {kind : MessageType} {actions notices : List Action} (message : SendsOne kind actions)
    (silent : ∀ notice ∈ notices, notice.sends = false) {sent : Message} {destination : Destination}
    (member : .send sent destination ∈ notices ++ actions) : sent.messageType = some kind := by
  obtain ⟨only, _, rfl, typed⟩ := message
  obtain earlier | last := List.mem_append.mp member
  · exact absurd (silent _ earlier) Bool.noConfusion
  · obtain ⟨rfl, -⟩ := Action.send.inj (List.mem_singleton.mp last)
    exact typed

/-- A backoff has been scheduled at `now`, give or take a second, and the next one is twice as long. -/
def Backed (now backoff : ℕ) (after : Client) : Prop :=
  ∃ jitter < Duration.fromSecs 2,
    after.retransmitAt = some (now + backoff + jitter - Duration.fromSecs 1) ∧
      after.backoff = min (backoff * 2) maxBackoff

/-- A message goes out and its repetition is scheduled; nothing else changes that a stint depends on. -/
structure Transmits (now : ℕ) (kind : MessageType) (c : Client) (sent : Client × List Action) : Prop where
  state : sent.1.state = c.state
  attempts : sent.1.attempts = c.attempts
  flag : sent.1.noOfferReported = c.noOfferReported
  lease : sent.1.lease = c.lease
  backed : Backed now c.backoff sent.1
  message : SendsOne kind sent.2

theorem scheduleBackoff_backed (c : Client) (now : ℕ) : Backed now c.backoff (c.scheduleBackoff now) := by
  refine ⟨Duration.fromMillis (c.nextRandom.1.toNat % 2000), ?_, rfl, rfl⟩
  have small := Nat.mod_lt c.nextRandom.1.toNat (show 0 < 2000 by decide)
  simp only [Duration.fromMillis, Duration.fromSecs]
  omega

theorem sendDiscover_transmits (c : Client) (now : ℕ) : Transmits now .discover c (c.sendDiscover now) := by
  refine ⟨rfl, rfl, rfl, rfl, c.scheduleBackoff_backed now, _, _, rfl, ?_⟩
  have typed := c.broadcast_messageType now .discover
  cases c.rebootAddress with
  | none => exact typed
  | some address => exact Message.messageType_pushOption typed _ _

theorem sendRequestForOffer_transmits (c : Client) (now : ℕ) {offer : Message} (offered : c.offer = some offer) :
    Transmits now .request c (c.sendRequestForOffer now) := by
  have typed := c.broadcast_messageType now .request
  rw [sendRequestForOffer, offered]
  refine ⟨rfl, rfl, rfl, rfl, c.scheduleBackoff_backed now, _, _, rfl, ?_⟩
  have asked := Message.messageType_pushOption typed option.requestedIp offer.yiaddr.octets
  cases offer.options.get option.serverId with
  | none => exact asked
  | some server => exact Message.messageType_pushOption asked _ _

theorem sendRebootRequest_transmits (c : Client) (now : ℕ) {address : Ipv4Addr}
    (remembered : c.rebootAddress = some address) : Transmits now .request c (c.sendRebootRequest now) := by
  have typed := c.broadcast_messageType now .request
  rw [sendRebootRequest, remembered]
  exact ⟨rfl, rfl, rfl, rfl, c.scheduleBackoff_backed now, _, _, rfl, Message.messageType_pushOption typed _ _⟩

end Client

/-! ## Turns -/

/-- What a state that waits for an address sends. -/
def State.message : State → MessageType
  | .selecting => .discover
  | .init | .requesting | .rebooting | .bound | .renewing | .rebinding => .request

/-- How many messages a stint may send before the client starts over, where there is such a number. -/
def State.patience : State → Option ℕ
  | .requesting => some maxRequests
  | .rebooting => some 2
  | .init | .selecting | .bound | .renewing | .rebinding => none

theorem State.patience_pos {state : State} {most : ℕ} (bound : most ∈ state.patience) : 1 ≤ most := by
  cases state <;> obtain ⟨⟩ := bound <;> decide

namespace Client

/-- The instant of an operation. -/
def Op.now : Op → ℕ
  | .start now _ | .release now | .renewNow now | .tick now | .receive now _ => now

/-- A start, which begins a stint whatever the state was. -/
def Op.starts : Op → Bool
  | .start .. => true
  | .release _ | .renewNow _ | .tick _ | .receive .. => false

/-- The time at which a renewal of the held lease is no longer asked for in this state. -/
def renewsUntil (c : Client) (lease : Lease) (boundAt : ℕ) : ℕ :=
  leaseInstant boundAt (if c.state = .renewing then lease.t2 else lease.leaseTime)

/-- What an operation does to a stint. -/
inductive Turn (c : Client) (op : Op) : Client → List Action → Prop
  /-- Nothing was due, or the input was not for us. -/
  | idle (goes : op.starts = false) : Turn c op c []
  /-- A stint without a lease begins. -/
  | enters {after : Client} {notices actions : List Action} (fresh : op.starts = true ∨ after.state ≠ c.state)
      (acquires : after.state.acquires = true) (attempts : after.attempts = 0)
      (backed : Backed op.now firstBackoff after)
      (flag : after.noOfferReported = (!op.starts && c.noOfferReported))
      (notice : notices = [] ∨ notices = [.lost]) (message : SendsOne after.state.message actions) :
      Turn c op after (notices ++ actions)
  /-- A message is repeated, and the third repetition of a DISCOVER is reported. -/
  | repeats {after : Client} {notices actions : List Action} (goes : op.starts = false)
      (state : after.state = c.state) (acquires : c.state.acquires = true) (unheld : after.lease = none)
      (attempts : after.attempts = c.attempts + 1) (patient : ∀ most ∈ after.state.patience, after.attempts < most)
      (backed : Backed op.now c.backoff after)
      (notice : if c.state = .selecting ∧ discoversBeforeNoOffer ≤ after.attempts ∧ c.noOfferReported = false then
        notices = [.noOffer] ∧ after.noOfferReported = true
      else notices = [] ∧ after.noOfferReported = c.noOfferReported)
      (message : SendsOne after.state.message actions) : Turn c op after (notices ++ actions)
  /-- The held lease is asked for again. -/
  | renews {after : Client} {actions : List Action} {lease : Lease} {boundAt : ℕ} (goes : op.starts = false)
      (state : after.state = .renewing ∨ after.state = .rebinding)
      (flag : after.noOfferReported = c.noOfferReported) (held : after.lease = some lease)
      (since : after.boundAt = some boundAt)
      (scheduled : after.retransmitAt =
        some (op.now + max ((after.renewsUntil lease boundAt - op.now) / 2) minRetransmit))
      (message : SendsOne .request actions) : Turn c op after actions
  /-- An ACK was accepted. -/
  | binds {after : Client} {lease : Lease} (goes : op.starts = false) (state : after.state = .bound)
      (flag : after.noOfferReported = false) : Turn c op after [.bound lease]
  /-- The client stops, telling the server at most. -/
  | stops {after : Client} {actions : List Action} (goes : op.starts = false) (state : after.state = .init)
      (flag : after.noOfferReported = c.noOfferReported)
      (told : actions = [] ∨ ∃ message destination, actions = [.send message destination]) : Turn c op after actions

theorem Transmits.enters {pre : Client} {now : ℕ} {sent : Client × List Action} {kind : MessageType}
    {notices : List Action} (transmits : Transmits now kind pre sent) (c : Client) (op : Op) (instant : op.now = now)
    (fresh : op.starts = true ∨ pre.state ≠ c.state) (acquires : pre.state.acquires = true)
    (kinds : kind = pre.state.message) (attempts : pre.attempts = 0) (backoff : pre.backoff = firstBackoff)
    (flag : pre.noOfferReported = (!op.starts && c.noOfferReported)) (notice : notices = [] ∨ notices = [.lost]) :
    Turn c op sent.1 (notices ++ sent.2) := by
  obtain ⟨state, kept, same, -, backed, message⟩ := transmits
  subst kinds instant
  rw [backoff] at backed
  refine .enters ?_ ?_ (kept.trans attempts) backed (same.trans flag) notice ?_
  · rw [state]
    exact fresh
  · rw [state]
    exact acquires
  · rw [state]
    exact message

theorem enterSelecting_turn {c pre : Client} (op : Op) (notices : List Action)
    (fresh : op.starts = true ∨ State.selecting ≠ c.state)
    (flag : pre.noOfferReported = (!op.starts && c.noOfferReported)) (notice : notices = [] ∨ notices = [.lost]) :
    Turn c op (pre.enterSelecting op.now).1 (notices ++ (pre.enterSelecting op.now).2) :=
  (sendDiscover_transmits _ op.now).enters c op rfl fresh rfl rfl rfl rfl flag notice

/-- A stint that ends with its state is followed by one in `Selecting`. -/
theorem selecting_turn {c pre : Client} (op : Op) (left : State.selecting ≠ c.state) (goes : op.starts = false)
    (flag : pre.noOfferReported = c.noOfferReported) :
    Turn c op (pre.enterSelecting op.now).1 (pre.enterSelecting op.now).2 :=
  enterSelecting_turn op [] (.inr left) (by rw [goes, flag]; rfl) (.inl rfl)

theorem sendRenewal_turn {c pre : Client} (op : Op) {lease : Lease} {boundAt : ℕ} (goes : op.starts = false)
    (state : pre.state = .renewing ∨ pre.state = .rebinding) (flag : pre.noOfferReported = c.noOfferReported)
    (held : pre.lease = some lease) (since : pre.boundAt = some boundAt) :
    Turn c op (pre.sendRenewal op.now).1 (pre.sendRenewal op.now).2 := by
  have bare : { pre.baseMessage op.now with ciaddr := lease.address }.options = [] := rfl
  have typed := pre.commonOptions_messageType bare .request
  rw [sendRenewal, held, since]
  refine .renews goes state flag rfl rfl ?_ ⟨_, _, rfl, typed⟩
  obtain state | state := state <;> simp only [renewsUntil, state] <;> rfl

theorem Transmits.repeats {pre : Client} {now : ℕ} {sent : Client × List Action} {kind : MessageType}
    {notices : List Action} (transmits : Transmits now kind pre sent) (c : Client) (kinds : kind = pre.state.message)
    (state : pre.state = c.state)
    (acquires : c.state.acquires = true) (unheld : pre.lease = none) (attempts : pre.attempts = c.attempts + 1)
    (patient : ∀ most ∈ pre.state.patience, pre.attempts < most) (backoff : pre.backoff = c.backoff)
    (notice : if c.state = .selecting ∧ discoversBeforeNoOffer ≤ pre.attempts ∧ c.noOfferReported = false then
        notices = [.noOffer] ∧ pre.noOfferReported = true
      else notices = [] ∧ pre.noOfferReported = c.noOfferReported) :
    Turn c (.tick now) sent.1 (notices ++ sent.2) := by
  obtain ⟨same, counted, flag, lease, backed, message⟩ := transmits
  subst kinds
  rw [backoff] at backed
  refine .repeats rfl (same.trans state) acquires (lease.trans unheld) (counted.trans attempts) ?_ backed ?_ ?_
  · rw [same, counted]
    exact patient
  · rw [counted, flag]
    exact notice
  · rw [same]
    exact message

/-- Outside `Selecting` there is nothing to report. -/
theorem silent_repeat {c : Client} {attempts : ℕ} (state : c.state ≠ .selecting) :
    if c.state = .selecting ∧ discoversBeforeNoOffer ≤ attempts ∧ c.noOfferReported = false then
      ([] : List Action) = [.noOffer] ∧ c.noOfferReported = true
    else ([] : List Action) = [] ∧ c.noOfferReported = c.noOfferReported := by
  rw [if_neg fun due => state due.1]
  exact ⟨rfl, rfl⟩

theorem sendDiscover_again {c : Client} {now : ℕ} (valid : c.Valid) (state : c.state = .selecting) {reported : Bool}
    {notices : List Action}
    (notice : if c.state = .selecting ∧ discoversBeforeNoOffer ≤ c.attempts + 1 ∧ c.noOfferReported = false then
        notices = [.noOffer] ∧ reported = true
      else notices = [] ∧ reported = c.noOfferReported) :
    let sent := sendDiscover { c with attempts := c.attempts + 1, noOfferReported := reported } now
    Turn c (.tick now) sent.1 (notices ++ sent.2) := by
  obtain ⟨unheld, -⟩ := valid.unheld (by rw [state]; rfl)
  have acquires : c.state.acquires = true := by rw [state]; rfl
  have message : .discover = c.state.message := by rw [state]; rfl
  have patient : ∀ most ∈ c.state.patience, c.attempts + 1 < most := by
    rw [state]
    exact fun _ none => nomatch none
  exact (sendDiscover_transmits _ now).repeats c message rfl acquires unheld rfl patient rfl notice

theorem sendRequestForOffer_again {c : Client} {now : ℕ} (valid : c.Valid) (state : c.state = .requesting)
    (few : ¬maxRequests ≤ c.attempts + 1) :
    let sent := sendRequestForOffer { c with attempts := c.attempts + 1 } now
    Turn c (.tick now) sent.1 sent.2 := by
  obtain ⟨unheld, -⟩ := valid.unheld (by rw [state]; rfl)
  obtain ⟨offer, offered, -⟩ := Option.bind_eq_some_iff.mp
    (Option.isSome_iff_exists.mp (valid.offered state)).choose_spec
  have acquires : c.state.acquires = true := by rw [state]; rfl
  have message : .request = c.state.message := by rw [state]; rfl
  have patient : ∀ most ∈ c.state.patience, c.attempts + 1 < most := by
    rw [state]
    rintro _ ⟨⟩
    exact Nat.not_le.mp few
  exact (sendRequestForOffer_transmits { c with attempts := c.attempts + 1 } now offered).repeats c message rfl acquires
    unheld rfl patient rfl (silent_repeat (by rw [state]; decide))

theorem sendRebootRequest_again {c : Client} {now : ℕ} (valid : c.Valid) (state : c.state = .rebooting)
    (few : ¬2 ≤ c.attempts + 1) :
    let sent := sendRebootRequest { c with attempts := c.attempts + 1 } now
    Turn c (.tick now) sent.1 sent.2 := by
  have left : c.state ≠ .selecting := by rw [state]; decide
  obtain forgotten | ⟨address, remembered⟩ := Option.eq_none_or_eq_some c.rebootAddress
  · rw [sendRebootRequest]
    dsimp only
    rw [forgotten]
    exact selecting_turn (.tick now) left.symm rfl rfl
  · obtain ⟨unheld, -⟩ := valid.unheld (by rw [state]; rfl)
    have acquires : c.state.acquires = true := by rw [state]; rfl
    have message : .request = c.state.message := by rw [state]; rfl
    have patient : ∀ most ∈ c.state.patience, c.attempts + 1 < most := by
      rw [state]
      rintro _ ⟨⟩
      exact Nat.not_le.mp few
    exact (sendRebootRequest_transmits { c with attempts := c.attempts + 1 } now remembered).repeats c message rfl
      acquires unheld rfl patient rfl (silent_repeat left)

/-- Every retransmission is a turn. -/
theorem retransmit_turn {c : Client} {now : ℕ} (valid : c.Valid) (asks : c.state.asks = true) :
    Turn c (.tick now) (c.retransmit now).1 (c.retransmit now).2 := by
  unfold retransmit
  split
  case h_1 state =>
    dsimp only
    split
    · next due => exact sendDiscover_again valid state (by rw [if_pos ⟨state, due⟩]; exact ⟨rfl, rfl⟩)
    · next other => exact sendDiscover_again valid state (by rw [if_neg fun due => other due.2]; exact ⟨rfl, rfl⟩)
  case h_2 state =>
    dsimp only
    split
    · exact selecting_turn (.tick now) (by rw [state]; decide) rfl rfl
    · next few => exact sendRequestForOffer_again valid state few
  case h_3 state =>
    dsimp only
    split
    · exact selecting_turn (.tick now) (by rw [state]; decide) rfl rfl
    · next few => exact sendRebootRequest_again valid state few
  case h_4 state =>
    obtain ⟨lease, boundAt, held, since, -⟩ := valid.held (by rw [state]; rfl)
    exact sendRenewal_turn (.tick now) rfl (.inl state) rfl held since
  case h_5 state =>
    obtain ⟨lease, boundAt, held, since, -⟩ := valid.held (by rw [state]; rfl)
    exact sendRenewal_turn (.tick now) rfl (.inr state) rfl held since
  case h_6 state => rw [state] at asks; contradiction
  case h_7 state => rw [state] at asks; contradiction

/-- A tick that crosses a boundary is a turn. -/
theorem tick_crossing_turn {c : Client} {now : ℕ} (valid : c.Valid) (reached : ¬Deadline.Ahead now c.boundary) :
    Turn c (.tick now) (c.tick now).1 (c.tick now).2 := by
  unfold boundary at reached
  split at reached
  case h_2 => exact absurd (Deadline.ahead_none now) reached
  case h_1 lease boundAt held since =>
    split at reached
    case h_1 state =>
      rw [Deadline.ahead_some, not_lt] at reached
      rw [tick_renewing valid state held since reached]
      exact sendRenewal_turn (.tick now) rfl (.inl rfl) rfl held since
    case h_2 state =>
      rw [Deadline.ahead_some, not_lt] at reached
      rw [tick_rebinding valid state held since reached]
      exact sendRenewal_turn (.tick now) rfl (.inr rfl) rfl held since
    case h_3 state =>
      rw [Deadline.ahead_some, not_lt] at reached
      rw [tick_expired state held since reached]
      exact enterSelecting_turn (.tick now) [.lost] (.inr (by rw [state]; decide)) rfl (.inr rfl)
    all_goals exact absurd (Deadline.ahead_none now) reached

theorem tick_turn {c : Client} (now : ℕ) (valid : c.Valid) : Turn c (.tick now) (c.tick now).1 (c.tick now).2 := by
  by_cases crossing : Deadline.Ahead now c.boundary
  · by_cases resend : Deadline.Ahead now c.retransmitAt
    · rw [tick_ahead ((Deadline.ahead_sooner _ _).mpr ⟨resend, crossing⟩)]
      exact .idle rfl
    · cases scheduled : c.retransmitAt with
      | none => exact absurd (scheduled ▸ Deadline.ahead_none now) resend
      | some due =>
        rw [scheduled, Deadline.ahead_some, not_lt] at resend
        rw [tick_retransmit crossing scheduled resend]
        exact retransmit_turn valid (valid.waiting.symm.trans (by rw [scheduled]; rfl))
  · exact tick_crossing_turn valid crossing

theorem receiveAck_turn {c : Client} (now : ℕ) (message : Message) :
    Turn c (.receive now message) (c.receiveAck now message).1 (c.receiveAck now message).2 := by
  unfold receiveAck
  split
  · exact .binds rfl rfl rfl
  · exact .idle rfl

theorem dispatch_turn {c : Client} (now : ℕ) (kind : MessageType) (message : Message) :
    Turn c (.receive now message) (c.dispatch now kind message).1 (c.dispatch now kind message).2 := by
  unfold dispatch
  split
  case h_1 state =>
    split
    · exact .idle rfl
    · exact (sendRequestForOffer_transmits
        { c with offer := some message, state := .requesting, attempts := 0, backoff := firstBackoff } now rfl).enters c
        (.receive now message) rfl (.inr (by rw [state]; exact State.noConfusion)) rfl rfl rfl rfl rfl (.inl rfl)
  case h_6 state | h_7 state => exact selecting_turn (.receive now message) (by rw [state]; decide) rfl rfl
  case h_8 state | h_9 state =>
    exact enterSelecting_turn (.receive now message) [.lost] (.inr (by rw [state]; decide)) rfl (.inr rfl)
  case h_10 => exact .idle rfl
  all_goals exact receiveAck_turn now message

theorem receive_turn {c : Client} (now : ℕ) (message : Message) :
    Turn c (.receive now message) (c.receive now message).1 (c.receive now message).2 := by
  unfold receive
  split
  · exact .idle rfl
  split
  · exact .idle rfl
  split
  · exact .idle rfl
  · exact dispatch_turn now _ message

/-- Every operation is a turn. -/
theorem turn {c : Client} (op : Op) (valid : c.Valid) : Turn c op (machine.next c op) (machine.output c op) := by
  cases op with
  | start now previous =>
    cases previous with
    | none => exact enterSelecting_turn (.start now none) [] (.inl rfl) rfl (.inl rfl)
    | some address =>
      exact (sendRebootRequest_transmits _ now rfl).enters c (.start now (some address)) rfl (.inl rfl) rfl rfl rfl rfl
        rfl (.inl rfl)
  | release now => exact .stops rfl rfl rfl (c.release_actions now)
  | renewNow now =>
    change Turn c (.renewNow now) (c.renewNow now).1 (c.renewNow now).2
    rw [renewNow]
    split
    · next holds =>
      obtain ⟨lease, boundAt, held, since, -⟩ := valid.held holds
      exact sendRenewal_turn (.renewNow now) rfl (.inl rfl) rfl held since
    · exact .idle rfl
  | tick now => exact tick_turn now valid
  | receive now message => exact receive_turn now message

/-- What goes out while an address is waited for is what the state sends. -/
theorem Turn.messageType {c after : Client} {op : Op} {actions : List Action} (turns : Turn c op after actions)
    (acquires : after.state.acquires = true) {message : Message} {destination : Destination}
    (sent : .send message destination ∈ actions) : message.messageType = some after.state.message := by
  cases turns with
  | idle => contradiction
  | enters _ _ _ _ _ notice one =>
    refine one.messageType ?_ sent
    obtain rfl | rfl := notice <;> simp [Action.sends]
  | repeats _ _ _ _ _ _ _ notice one =>
    refine one.messageType ?_ sent
    split at notice <;> obtain ⟨rfl, -⟩ := notice <;> simp [Action.sends]
  | renews _ state =>
    obtain state | state := state
    all_goals
      rw [state] at acquires
      contradiction
  | binds _ state | stops _ state =>
    rw [state] at acquires
    contradiction

/-! ## Counting the messages of a stint -/

/-- The messages that actions send. -/
def sends (actions : List Action) : ℕ := actions.countP Action.sends

/-- The client beside the number of messages it has sent in its current stint. -/
def counted : Transducer (Client × ℕ) Op (List Action) where
  step s op :=
    let next := machine.next s.1 op
    let output := machine.output s.1 op
    ((next, (if op.starts = true ∨ next.state ≠ s.1.state then 0 else s.2) + sends output), output)

/-- The backoff behind the `k`-th message of a stint, counted from zero: 4 s, doubled up to 64 s. -/
def rung (k : ℕ) : ℕ := Duration.fromSecs (min (4 * 2 ^ k) 64)

theorem rung_succ (k : ℕ) : min (rung k * 2) maxBackoff = rung (k + 1) := by
  simp only [rung, maxBackoff, Duration.fromSecs, Nat.pow_succ]
  omega

/-- A client and its count: while it waits for an address, as many messages have gone out as its counter and its
backoff say. -/
structure Paced (s : Client × ℕ) : Prop where
  valid : s.1.Valid
  sent : s.1.state.acquires = true → s.2 = s.1.attempts + 1
  backoff : s.1.state.acquires = true → s.1.backoff = rung s.2
  patient : ∀ most ∈ s.1.state.patience, s.2 ≤ most

theorem SendsOne.sends {kind : MessageType} {actions : List Action} (message : SendsOne kind actions) :
    sends actions = 1 := by
  obtain ⟨_, _, rfl, -⟩ := message
  rfl

theorem Backed.rung {now k : ℕ} {after : Client} (backed : Backed now (rung k) after) :
    after.backoff = Client.rung (k + 1) := by
  obtain ⟨_, -, -, doubled⟩ := backed
  rw [doubled, rung_succ]

theorem paced_new (config : Config) (created : ℕ) : Paced (new config created, 0) :=
  ⟨valid_new config created, (fun acquires => nomatch acquires), (fun acquires => nomatch acquires),
    fun _ none => nomatch none⟩

/-- In the other states the count says nothing. -/
theorem Valid.paced {c : Client} (valid : c.Valid) (other : c.state.acquires = false) (count : ℕ) : Paced (c, count) := by
  have impatient : c.state.patience = none := by cases state : c.state <;> simp_all [State.acquires, State.patience]
  refine ⟨valid, fun acquires => ?_, fun acquires => ?_, fun most bound => ?_⟩
  · exact absurd acquires (by rw [other]; decide)
  · exact absurd acquires (by rw [other]; decide)
  · rw [impatient] at bound
    contradiction

theorem sends_append (first second : List Action) : sends (first ++ second) = sends first + sends second :=
  List.countP_append

/-- The count after a turn. -/
theorem counted_next (s : Client × ℕ) (op : Op) :
    counted.next s op = (machine.next s.1 op,
      (if op.starts = true ∨ (machine.next s.1 op).state ≠ s.1.state then 0 else s.2) + sends (machine.output s.1 op)) :=
  rfl

theorem paced_next (s : Client × ℕ) (op : Op) (paced : Paced s) : Paced (counted.next s op) := by
  obtain ⟨valid, sent, backoff, patient⟩ := paced
  have valid' := machine_valid s.1 op valid
  have turns := turn op valid
  rw [counted_next]
  generalize machine.next s.1 op = after, machine.output s.1 op = actions at turns valid' ⊢
  cases turns with
  | idle goes =>
    have kept : ¬(op.starts = true ∨ s.1.state ≠ s.1.state) := by simp [goes]
    rw [if_neg kept]
    exact ⟨valid, sent, backoff, patient⟩
  | @enters _ notices actions fresh acquires attempts backed flag notice message =>
    have one : sends (notices ++ actions) = 1 := by
      obtain rfl | rfl := notice
      · exact message.sends
      · rw [sends_append, message.sends]
        rfl
    rw [if_pos fresh, one]
    refine ⟨valid', fun _ => ?_, fun _ => Backed.rung (k := 0) backed, fun most bound => ?_⟩
    · rw [attempts]
    · exact State.patience_pos bound
  | @repeats _ notices actions goes state acquires unheld attempts few backed notice message =>
    have kept : ¬(op.starts = true ∨ after.state ≠ s.1.state) := by simp [goes, state]
    have one : sends (notices ++ actions) = 1 := by
      split at notice <;> obtain ⟨rfl, -⟩ := notice
      · rw [sends_append, message.sends]
        rfl
      · exact message.sends
    have earlier := sent acquires
    rw [backoff acquires] at backed
    rw [if_neg kept, one]
    refine ⟨valid', fun _ => ?_, fun _ => backed.rung, fun most bound => ?_⟩
    · rw [attempts, earlier]
    · have fewer := few most bound
      change s.2 + 1 ≤ most
      omega
  | renews goes state flag held since scheduled message =>
    exact valid'.paced (by obtain state | state := state <;> rw [state] <;> rfl) _
  | binds goes state flag => exact valid'.paced (by rw [state]; rfl) _
  | stops goes state flag told => exact valid'.paced (by rw [state]; rfl) _

/-- Every run keeps the pace. -/
theorem reachable_paced (config : Config) (created : ℕ) (ops : List Op) :
    Paced (counted.run (new config created, 0) ops) :=
  counted.run_invariant paced_next (paced_new config created) ops

end Client

end Netd.Model.Dhcp4
