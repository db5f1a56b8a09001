import Netd.Proofs.Dhcp4.Moves

/-! # The DHCPv4 client's deadline and its ticks

Outside `Init` there is always a next deadline: before it a tick does nothing, at or after it a tick
sends once. However late a tick comes, the boundaries T1, T2 and expiry are crossed one per tick, so
three ticks at one instant bring the deadline behind that instant.
-/

namespace Netd.Model.Dhcp4.Client

theorem nextDeadline_init {c : Client} (valid : c.Valid) (state : c.state = .init) : c.nextDeadline = none := by
  obtain ⟨leaseNone, boundNone⟩ := valid.unheld (by rw [state]; rfl)
  have quiet : c.retransmitAt = none := by
    have waiting := valid.waiting
    rw [state] at waiting
    simpa [State.asks] using waiting
  simp [nextDeadline, boundary, leaseNone, quiet, Deadline.sooner]

/-- Outside `Init` something is always due at some time. -/
theorem nextDeadline_isSome {c : Client} (valid : c.Valid) (state : c.state ≠ .init) :
    ∃ due, c.nextDeadline = some due := by
  cases scheduled : c.retransmitAt with
  | some resend =>
    cases boundary : c.boundary <;> simp [nextDeadline, scheduled, boundary, Deadline.sooner]
  | none =>
    have silent : c.state.asks = false := by rw [← valid.waiting, scheduled]; rfl
    have bound : c.state = .bound := by cases current : c.state <;> simp_all [State.asks]
    obtain ⟨lease, boundAt, leaseEq, boundEq, _⟩ := valid.held (by rw [bound]; rfl)
    simp [nextDeadline, scheduled, boundary, leaseEq, boundEq, bound, Deadline.sooner]

/-- A client without a lease that has just sent has nothing due. -/
theorem Acquiring.ahead {c : Client} {now : ℕ} (acquiring : c.Acquiring now) :
    Deadline.Ahead now c.nextDeadline := by
  obtain ⟨due, scheduled, later⟩ := acquiring.scheduled
  simpa [nextDeadline, boundary, acquiring.lease_none, scheduled, Deadline.sooner] using later

/-- A client that has just asked for its lease again has at most the next boundary due. -/
theorem Renewal.ahead {before c : Client} {now : ℕ} (renewal : Renewal now before c)
    (boundary : Deadline.Ahead now c.boundary) : Deadline.Ahead now c.nextDeadline := by
  obtain ⟨due, scheduled, later⟩ := renewal.scheduled
  exact (Deadline.ahead_sooner _ _).mpr ⟨by rw [scheduled]; exact Deadline.ahead_some.mpr later, boundary⟩

theorem leaseInstant_lt {boundAt : ℕ} {first second : U32} (lt : first.toNat < second.toNat) :
    leaseInstant boundAt first < leaseInstant boundAt second :=
  Nat.add_lt_add_left (Nat.mul_lt_mul_of_pos_right lt (by decide)) boundAt

/-- With nothing due, a held lease has not expired: its times are ordered. -/
theorem unexpired {c : Client} {now : ℕ} (valid : c.Valid) (ahead : Deadline.Ahead now c.nextDeadline)
    {lease : Lease} {boundAt : ℕ} (leaseEq : c.lease = some lease) (boundEq : c.boundAt = some boundAt) :
    now < leaseInstant boundAt lease.leaseTime := by
  obtain ⟨_, first, second⟩ := valid.shaped lease leaseEq
  have holds : c.state.holds = true := by rw [← valid.lease_isSome, leaseEq]; rfl
  have crossing := ((Deadline.ahead_sooner _ _).mp ahead).2
  simp only [boundary, leaseEq, boundEq] at crossing
  cases state : c.state with
  | init | selecting | requesting | rebooting => rw [state] at holds; contradiction
  | bound =>
    simp only [state, Deadline.ahead_some] at crossing
    exact crossing.trans ((leaseInstant_lt first).trans (leaseInstant_lt second))
  | renewing =>
    simp only [state, Deadline.ahead_some] at crossing
    exact crossing.trans (leaseInstant_lt second)
  | rebinding => simpa only [state, Deadline.ahead_some] using crossing

/-! ## However late the tick -/

/-- The boundaries that the client crosses before the lease expires. -/
def boundariesAhead (c : Client) : ℕ :=
  match c.state with
  | .bound => 2
  | .renewing => 1
  | .init | .selecting | .requesting | .rebooting | .rebinding => 0

/-- Sending without a lease leaves nothing due and loses nothing. -/
theorem SendingMove.acquiring {c : Client} {now : ℕ} {sent : Client × List Action}
    (unheld : c.state.holds = false) (sending : SendingMove now c sent) :
    sent.1.Acquiring now ∧ sent.2.count .lost = 0 := by
  obtain ⟨after, actions⟩ := sent
  obtain ⟨move, one⟩ := sending
  dsimp only at move one ⊢
  cases move with
  | ignored | binds => simp [Action.sends] at one
  | asks _ notice acquiring => rcases notice with rfl | rfl <;> exact ⟨acquiring, by simp⟩
  | loses held => rw [unheld] at held; contradiction
  | renews renewal => exact absurd renewal.held (by rw [unheld]; simp)

theorem sendRenewal_state (c : Client) (now : ℕ) : (c.sendRenewal now).1.state = c.state := by
  unfold sendRenewal
  split <;> rfl

/-- Repeating a renewal moves no boundary. -/
theorem sendRenewal_boundary (c : Client) (now : ℕ) : (c.sendRenewal now).1.boundary = c.boundary := by
  unfold sendRenewal
  split
  · next lease boundAt leaseEq boundEq => simp only [boundary, leaseEq, boundEq]
  · rfl

theorem Renewed.count_lost {before : Client} {now : ℕ} {sent : Client × List Action}
    (renewed : Renewed now before sent) : sent.2.count .lost = 0 := by
  obtain ⟨_, message, destination, actions⟩ := renewed
  simp [actions]

/-- A renewal that is repeated before the next boundary leaves nothing due. -/
private theorem tick_repeated {c : Client} {now : ℕ} (valid : c.Valid)
    (state : c.state = .renewing ∨ c.state = .rebinding) (boundary : Deadline.Ahead now c.boundary)
    (reached : ¬ Deadline.Ahead now c.nextDeadline) :
    Deadline.Ahead now (c.tick now).1.nextDeadline ∧ (c.tick now).2.count .lost = 0 := by
  have resend : ¬ Deadline.Ahead now c.retransmitAt := fun ahead =>
    reached ((Deadline.ahead_sooner _ _).mpr ⟨ahead, boundary⟩)
  cases scheduled : c.retransmitAt with
  | none => exact absurd (scheduled ▸ Deadline.ahead_none now) resend
  | some due =>
    rw [scheduled, Deadline.ahead_some, not_lt] at resend
    have ticked : c.tick now = c.sendRenewal now := by
      rw [tick_retransmit boundary scheduled resend]
      rcases state with state | state <;> simp only [retransmit, state]
    have renewed : Renewed now c (c.sendRenewal now) :=
      sendRenewal_renewed now valid (by rcases state with state | state <;> rw [state] <;> rfl) state rfl rfl rfl
    rw [ticked]
    exact ⟨renewed.1.ahead (by rw [sendRenewal_boundary]; exact boundary), renewed.count_lost⟩

/-- A tick with something due leaves nothing due, or crosses a boundary and keeps the lease. -/
theorem tick_progress {c : Client} {now : ℕ} (valid : c.Valid)
    (reached : ¬ Deadline.Ahead now c.nextDeadline) :
    (Deadline.Ahead now (c.tick now).1.nextDeadline ∧ (c.tick now).2.count .lost ≤ 1) ∨
      ((c.tick now).1.boundariesAhead + 1 = c.boundariesAhead ∧ (c.tick now).2.count .lost = 0) := by
  by_cases boundary : Deadline.Ahead now c.boundary
  · -- No boundary was reached, so this is a retransmission.
    cases state : c.state with
    | init | selecting | requesting | rebooting =>
      obtain ⟨acquiring, none⟩ := (tick_sendingMove valid reached).acquiring (by rw [state]; rfl)
      exact .inl ⟨acquiring.ahead, by omega⟩
    | bound =>
      have quiet : c.retransmitAt = none := by simpa [state, State.asks] using valid.waiting
      exact absurd ((Deadline.ahead_sooner _ _).mpr ⟨quiet ▸ Deadline.ahead_none now, boundary⟩) reached
    | renewing =>
      obtain ⟨ahead, none⟩ := tick_repeated valid (.inl state) boundary reached
      exact .inl ⟨ahead, by omega⟩
    | rebinding =>
      obtain ⟨ahead, none⟩ := tick_repeated valid (.inr state) boundary reached
      exact .inl ⟨ahead, by omega⟩
  · have held : c.state.holds = true := by
      by_contra unheld
      obtain ⟨leaseNone, _⟩ := valid.unheld (Bool.not_eq_true _ ▸ unheld)
      exact boundary (by simp [Client.boundary, leaseNone])
    obtain ⟨lease, boundAt, leaseEq, boundEq, _⟩ := valid.held held
    simp only [Client.boundary, leaseEq, boundEq] at boundary
    cases state : c.state with
    | init | selecting | requesting | rebooting => rw [state] at held; contradiction
    | bound =>
      simp only [state, Deadline.ahead_some, not_lt] at boundary
      rw [tick_renewing valid state leaseEq boundEq boundary]
      refine .inr ⟨?_, (enterRenewing_renewed now valid held).count_lost⟩
      simp only [boundariesAhead, state, enterRenewing, sendRenewal_state]
    | renewing =>
      simp only [state, Deadline.ahead_some, not_lt] at boundary
      rw [tick_rebinding valid state leaseEq boundEq boundary]
      refine .inr ⟨?_, (enterRebinding_renewed now valid held).count_lost⟩
      simp only [boundariesAhead, state, enterRebinding, sendRenewal_state]
    | rebinding =>
      simp only [state, Deadline.ahead_some, not_lt] at boundary
      rw [tick_expired state leaseEq boundEq boundary]
      obtain ⟨acquiring, message, sent⟩ :=
        enterSelecting_asked (c := { c with lease := none, boundAt := none }) now rfl rfl
      refine .inl ⟨acquiring.ahead, ?_⟩
      rw [sent]
      simp

theorem tick_ne_init {c : Client} (now : ℕ) (valid : c.Valid) (state : c.state ≠ .init) :
    (c.tick now).1.state ≠ .init := by
  have move := tick_move now valid
  generalize (c.tick now).1 = after, (c.tick now).2 = actions at move
  cases move with
  | ignored => exact state
  | asks _ _ acquiring | loses _ acquiring =>
    intro init
    have acquires := acquiring.acquires
    rw [init] at acquires
    contradiction
  | renews renewal => rcases renewal.state with state | state <;> rw [state] <;> simp
  | binds => simp

/-- Few ticks at one instant leave nothing due then, having lost the lease at most once. -/
theorem ticks_settle {c : Client} (now : ℕ) (valid : c.Valid) (state : c.state ≠ .init) :
    ∃ count ≤ c.boundariesAhead + 1,
      let after := machine.run c (List.replicate count (.tick now))
      after.Valid ∧ after.state ≠ .init ∧ Deadline.Ahead now after.nextDeadline ∧
        (machine.outputs c (List.replicate count (.tick now))).flatten.count .lost ≤ 1 := by
  induction remaining : c.boundariesAhead using Nat.strong_induction_on generalizing c with
  | _ boundaries ih =>
  by_cases ahead : Deadline.Ahead now c.nextDeadline
  · exact ⟨0, Nat.zero_le _, valid, state, ahead, Nat.zero_le _⟩
  · have valid' := (tick_move now valid).valid valid
    have state' := tick_ne_init now valid state
    rcases tick_progress valid ahead with ⟨ahead', once⟩ | ⟨fewer, never⟩
    · refine ⟨1, by omega, valid', state', ahead', ?_⟩
      change ([(c.tick now).2].flatten).count .lost ≤ 1
      rwa [List.flatten_singleton]
    · obtain ⟨count, few, settled⟩ := ih _ (by omega) valid' state' rfl
      refine ⟨count + 1, by omega, settled.1, settled.2.1, settled.2.2.1, ?_⟩
      change (((c.tick now).2 :: machine.outputs (c.tick now).1 _).flatten).count .lost ≤ 1
      rw [List.flatten_cons, List.count_append, never, Nat.zero_add]
      exact settled.2.2.2

theorem boundariesAhead_le (c : Client) : c.boundariesAhead ≤ 2 := by
  unfold boundariesAhead
  split <;> omega

/-- Ticks and the deadline agree on every reachable client: in `Init` nothing is due; elsewhere a tick
does nothing before the deadline and sends once from then on, and at most three ticks at one
instant leave nothing due and no expired lease, with at most one loss. -/
theorem tick_deadline_agree (config : Config) (created : ℕ) (ops : List Op) :
    let c := machine.run (new config created) ops
    (c.state = .init → c.nextDeadline = none ∧ ∀ now, c.tick now = (c, [])) ∧
    (c.state ≠ .init → ∃ due, c.nextDeadline = some due ∧
      (∀ now < due, c.tick now = (c, [])) ∧
      (∀ now, due ≤ now → (c.tick now).2.countP Action.sends = 1) ∧
      ∀ now, ∃ count ≤ 3, ∃ later,
        let after := machine.run c (List.replicate count (.tick now))
        after.nextDeadline = some later ∧ now < later ∧
        (∀ lease ∈ after.lease, ∀ boundAt ∈ after.boundAt,
          now < leaseInstant boundAt lease.leaseTime) ∧
        (machine.outputs c (List.replicate count (.tick now))).flatten.count .lost ≤ 1) := by
  intro c
  have valid : c.Valid := reachable_valid config created ops
  refine ⟨fun state => ?_, fun state => ?_⟩
  · have never := nextDeadline_init valid state
    exact ⟨never, fun now => tick_ahead (never ▸ Deadline.ahead_none now)⟩
  · obtain ⟨due, dueEq⟩ := nextDeadline_isSome valid state
    refine ⟨due, dueEq, fun now early => ?_, fun now reached => ?_, fun now => ?_⟩
    · exact tick_ahead (by rw [dueEq]; exact Deadline.ahead_some.mpr early)
    · exact (tick_sendingMove valid (by rw [dueEq, Deadline.ahead_some]; omega)).2
    · obtain ⟨count, few, valid', state', ahead, lost⟩ := ticks_settle now valid state
      obtain ⟨later, laterEq⟩ := nextDeadline_isSome valid' state'
      have atMost := c.boundariesAhead_le
      refine ⟨count, by omega, later, laterEq, ?_, fun lease leaseEq boundAt boundEq => ?_, lost⟩
      · rwa [laterEq, Deadline.ahead_some] at ahead
      · exact unexpired valid' ahead leaseEq boundEq

end Netd.Model.Dhcp4.Client
