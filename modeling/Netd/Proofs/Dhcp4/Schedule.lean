import Netd.Proofs.Dhcp4.Stints

/-! # The schedule of retransmissions

While a client waits for an address, the distance to the next message of a stint doubles from 4 s up to 64 s,
give or take a second; while it asks for its lease again, the distance is half the time that is left, and a
minute at least. A stint in `Requesting` sends four messages at most, and one in `Rebooting` two.
-/

namespace Netd.Model.Dhcp4.Client

theorem receiveAck_same_state {c : Client} {now : ℕ} {message : Message} (unbound : c.state ≠ .bound)
    (same : (c.receiveAck now message).1.state = c.state) : c.receiveAck now message = (c, []) := by
  unfold receiveAck at same ⊢
  split at same
  · exact absurd same.symm unbound
  · rfl

theorem dispatch_same_state {c : Client} {now : ℕ} {kind : MessageType} {message : Message}
    (same : (c.dispatch now kind message).1.state = c.state) : c.dispatch now kind message = (c, []) := by
  unfold dispatch at same ⊢
  split
  case h_1 state =>
    rw [state] at same
    dsimp only at same
    split
    · rfl
    · next usable =>
      rw [if_neg usable] at same
      exact State.noConfusion same
  case h_6 state | h_7 state | h_8 state | h_9 state =>
    rw [state] at same
    exact State.noConfusion same
  case h_10 => rfl
  all_goals
    next state =>
    rw [state] at same
    exact receiveAck_same_state (by rw [state]; decide) (by rw [state]; exact same)

/-- A message that leaves the state alone leaves everything alone. -/
theorem receive_same_state {c : Client} {now : ℕ} {message : Message}
    (same : (c.receive now message).1.state = c.state) : c.receive now message = (c, []) := by
  unfold receive at same ⊢
  split
  · rfl
  next addressed =>
  rw [if_neg addressed] at same
  split
  · rfl
  next kind typed =>
  rw [typed] at same
  dsimp only at same
  split
  · rfl
  next familiar =>
  rw [if_neg familiar] at same
  exact dispatch_same_state same

/-- What an operation schedules, on a client that has sent some messages in its stint. -/
structure Disciplined (s : Client × ℕ) (op : Op) : Prop where
  quiet : ∀ now message, op = .receive now message → (machine.next s.1 op).state = s.1.state →
    machine.step s.1 op = (s.1, [])
  backoff : 0 < sends (machine.output s.1 op) → (counted.next s op).1.state.acquires = true →
    ∃ k due, (counted.next s op).2 = k + 1 ∧ (counted.next s op).1.retransmitAt = some due ∧
      op.now + rung k ≤ due + Duration.fromSecs 1 ∧ due < op.now + rung k + Duration.fromSecs 1
  requests : (counted.next s op).1.state = .requesting → (counted.next s op).2 ≤ 4
  reboots : (counted.next s op).1.state = .rebooting → (counted.next s op).2 ≤ 2
  asks : ∀ message destination, .send message destination ∈ machine.output s.1 op →
    ((counted.next s op).1.state = .requesting ∨ (counted.next s op).1.state = .rebooting) →
      message.messageType = some .request
  gives_up : ∀ now, op = .tick now → s.1.state = .requesting ∨ s.1.state = .rebooting →
    (counted.next s op).1.state = s.1.state ∨ (counted.next s op).1.state = .selecting
  due : ∀ now due, op = .tick now → s.1.state.acquires = true → s.1.retransmitAt = some due → due ≤ now →
    sends (machine.output s.1 op) = 1 ∧
      ∀ most ∈ s.1.state.patience, most ≤ s.2 → (counted.next s op).1.state = .selecting
  renewal : 0 < sends (machine.output s.1 op) →
    (counted.next s op).1.state = .renewing ∨ (counted.next s op).1.state = .rebinding →
      ∃ lease boundAt, (counted.next s op).1.lease = some lease ∧ (counted.next s op).1.boundAt = some boundAt ∧
        (counted.next s op).1.retransmitAt = some (op.now +
          max (((counted.next s op).1.renewsUntil lease boundAt - op.now) / 2) (Duration.fromSecs 60))
  later : 0 < sends (machine.output s.1 op) → ∀ due ∈ (counted.next s op).1.retransmitAt, op.now < due

theorem Backed.window {now backoff : ℕ} {after : Client} (long : firstBackoff ≤ backoff)
    (backed : Backed now backoff after) :
    ∃ due, after.retransmitAt = some due ∧ now + backoff ≤ due + Duration.fromSecs 1 ∧
      due < now + backoff + Duration.fromSecs 1 ∧ now < due := by
  obtain ⟨jitter, small, scheduled, -⟩ := backed
  simp only [firstBackoff, Duration.fromSecs] at long small
  refine ⟨_, scheduled, ?_, ?_, ?_⟩
  all_goals
    simp only [Duration.fromSecs]
    omega

theorem firstBackoff_le_rung (k : ℕ) : firstBackoff ≤ rung k := by
  have positive : 0 < 2 ^ k := Nat.two_pow_pos k
  simp only [firstBackoff, rung, Duration.fromSecs]
  omega

/-- A message that goes out in a stint without a lease is followed by the backoff of its rank. -/
theorem Turn.backed {s : Client × ℕ} {op : Op} {after : Client} {actions : List Action} (paced : Paced s)
    (turns : Turn s.1 op after actions) (sent : 0 < sends actions) (acquires : after.state.acquires = true) :
    Backed op.now (rung after.attempts) after := by
  cases turns with
  | idle | binds => exact absurd sent (Nat.lt_irrefl 0)
  | enters _ _ attempts backed =>
    rw [attempts]
    exact backed
  | repeats _ _ before _ attempts _ backed =>
    rw [attempts, ← paced.sent before, ← paced.backoff before]
    exact backed
  | renews _ state =>
    obtain state | state := state
    all_goals
      rw [state] at acquires
      contradiction
  | stops _ state =>
    rw [state] at acquires
    contradiction

/-- A message that goes out while a lease is held is followed by half the time that is left. -/
theorem Turn.renewal {c after : Client} {op : Op} {actions : List Action} (turns : Turn c op after actions)
    (sent : 0 < sends actions) (renewing : after.state = .renewing ∨ after.state = .rebinding) :
    ∃ lease boundAt, after.lease = some lease ∧ after.boundAt = some boundAt ∧
      after.retransmitAt =
        some (op.now + max ((after.renewsUntil lease boundAt - op.now) / 2) (Duration.fromSecs 60)) := by
  have unheld (acquires : after.state.acquires = true) : False := by
    obtain state | state := renewing
    all_goals
      rw [state] at acquires
      contradiction
  cases turns with
  | idle | binds => exact absurd sent (Nat.lt_irrefl 0)
  | enters _ acquires => exact absurd acquires unheld
  | repeats _ state acquires => exact absurd (state ▸ acquires) unheld
  | renews _ _ _ held since scheduled => exact ⟨_, _, held, since, scheduled⟩
  | stops _ state =>
    obtain renewing | renewing := renewing
    all_goals
      rw [state] at renewing
      contradiction

/-- What is scheduled is later. -/
theorem later_of_paced {s : Client × ℕ} {op : Op} (paced : Paced s) (sent : 0 < sends (machine.output s.1 op)) :
    ∀ due ∈ (machine.next s.1 op).retransmitAt, op.now < due := by
  have turns := turn op paced.valid
  have valid := machine_valid s.1 op paced.valid
  intro due scheduled
  by_cases acquires : (machine.next s.1 op).state.acquires = true
  · obtain ⟨found, there, -, -, later⟩ := (turns.backed paced sent acquires).window (firstBackoff_le_rung _)
    obtain rfl := Option.some.inj (there.symm.trans scheduled)
    exact later
  · have asks : (machine.next s.1 op).state.asks = true := by
      rw [← valid.waiting, Option.mem_def.mp scheduled]
      rfl
    have renewing : (machine.next s.1 op).state = .renewing ∨ (machine.next s.1 op).state = .rebinding := by
      cases state : (machine.next s.1 op).state <;> simp_all [State.acquires, State.asks]
    obtain ⟨lease, boundAt, -, -, there⟩ := turns.renewal sent renewing
    obtain rfl := Option.some.inj (there.symm.trans scheduled)
    have minute : 0 < Duration.fromSecs 60 := by decide
    omega

/-- Without a lease there is nothing but the next message to wait for. -/
theorem Valid.crossing {c : Client} (valid : c.Valid) (acquires : c.state.acquires = true) (now : ℕ) :
    Deadline.Ahead now c.boundary := by
  have idle : c.state.holds = false := by
    cases state : c.state <;> rw [state] at acquires <;> first | rfl | cases acquires
  rw [boundary, (valid.unheld idle).1]
  exact Deadline.ahead_none now

/-- Once as many messages have gone out as the state has patience for, the next is that of a new stint. -/
theorem retransmit_selecting {c : Client} (now : ℕ) {most : ℕ} (bound : most ∈ c.state.patience)
    (sent : most ≤ c.attempts + 1) : (c.retransmit now).1.state = .selecting := by
  unfold retransmit
  cases state : c.state with
  | requesting =>
    rw [state] at bound
    obtain rfl := Option.some.inj bound
    dsimp only
    rw [if_pos sent]
    rfl
  | rebooting =>
    rw [state] at bound
    obtain rfl := Option.some.inj bound
    dsimp only
    rw [if_pos sent]
    rfl
  | _ =>
    rw [state] at bound
    cases bound

theorem retransmit_gives_up {c : Client} (now : ℕ) (waiting : c.state = .requesting ∨ c.state = .rebooting) :
    (c.retransmit now).1.state = c.state ∨ (c.retransmit now).1.state = .selecting := by
  unfold retransmit
  obtain state | state := waiting
  all_goals
    rw [state]
    dsimp only
    split
    · exact .inr rfl
  · rw [sendRequestForOffer]
    split
    · exact .inr rfl
    · exact .inl rfl
  · rw [sendRebootRequest]
    split
    · exact .inr rfl
    · exact .inl rfl

/-- A stint that waits for an answer ends by starting over, if it is left to the clock. -/
theorem tick_gives_up {c : Client} (now : ℕ) (valid : c.Valid)
    (waiting : c.state = .requesting ∨ c.state = .rebooting) :
    (c.tick now).1.state = c.state ∨ (c.tick now).1.state = .selecting := by
  have acquires : c.state.acquires = true := by obtain state | state := waiting <;> rw [state] <;> rfl
  by_cases resend : Deadline.Ahead now c.retransmitAt
  · rw [tick_ahead ((Deadline.ahead_sooner _ _).mpr ⟨resend, valid.crossing acquires now⟩)]
    exact .inl rfl
  · cases scheduled : c.retransmitAt with
    | none => exact absurd (scheduled ▸ Deadline.ahead_none now) resend
    | some due =>
      rw [scheduled, Deadline.ahead_some, not_lt] at resend
      rw [tick_retransmit (valid.crossing acquires now) scheduled resend]
      exact retransmit_gives_up now waiting

/-- The discipline holds in every run, for every operation. -/
theorem retransmission_discipline (config : Config) (created : ℕ) (ops : List Op) (op : Op) :
    Disciplined (counted.run (new config created, 0) ops) op := by
  have paced := reachable_paced config created ops
  generalize counted.run (new config created, 0) ops = s at paced
  have turns := turn op paced.valid
  have next := paced_next s op paced
  refine ⟨?_, ?_, ?_, ?_, ?_, ?_, ?_, turns.renewal, later_of_paced paced⟩
  · rintro now message rfl same
    exact receive_same_state same
  · intro sent acquires
    obtain ⟨due, scheduled, first, last, -⟩ := (turns.backed paced sent acquires).window (firstBackoff_le_rung _)
    exact ⟨_, due, next.sent acquires, scheduled, first, last⟩
  · intro state
    exact next.patient 4 (by rw [state]; rfl)
  · intro state
    exact next.patient 2 (by rw [state]; rfl)
  · intro message destination sent waiting
    have acquires : (machine.next s.1 op).state.acquires = true := by
      obtain state | state := waiting <;> rw [show (machine.next s.1 op).state = _ from state] <;> rfl
    rw [turns.messageType acquires sent]
    obtain state | state := waiting <;> rw [show (machine.next s.1 op).state = _ from state] <;> rfl
  · rintro now rfl waiting
    exact tick_gives_up now paced.valid waiting
  · rintro now due rfl acquires scheduled reached
    have asks : s.1.state.asks = true := by
      rw [← paced.valid.waiting, scheduled]
      rfl
    have ticks : machine.step s.1 (.tick now) = s.1.retransmit now :=
      tick_retransmit (paced.valid.crossing acquires now) scheduled reached
    refine ⟨?_, fun most bound sent => ?_⟩
    · rw [Transducer.output, ticks]
      exact (retransmit_sendingMove now paced.valid asks).2
    · change (machine.next s.1 (.tick now)).state = .selecting
      rw [Transducer.next, ticks]
      rw [paced.sent acquires] at sent
      exact retransmit_selecting now bound sent

end Netd.Model.Dhcp4.Client
