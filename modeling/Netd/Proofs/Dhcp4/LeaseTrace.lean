import Netd.Proofs.Dhcp4.Moves

/-! # The lease is what the actions say

The daemon learns of a lease from `Bound` and of its end from `Lost`; it ends one itself by calling
`start` or `release`. Folding what a caller sees of a run gives the lease of the client after every
operation, so a caller that only reads the actions is never wrong about it.
-/

namespace Netd.Model.Dhcp4.Client

/-- What an action says about the lease. -/
def record (known : Option Lease) : Action → Option Lease
  | .bound lease => some lease
  | .lost => none
  | .send .. | .noOffer => known

/-- What a caller knows after an operation and its actions. -/
def observe (known : Option Lease) (op : Op) (actions : List Action) : Option Lease :=
  match op with
  | .start .. | .release _ => actions.foldl record none
  | .renewNow _ | .tick _ | .receive .. => actions.foldl record known

theorem Move.lease_eq {now : ℕ} {c after : Client} {actions : List Action}
    (move : Move now c after actions) : after.lease = actions.foldl record c.lease := by
  cases move with
  | ignored => rfl
  | asks unheld notice acquiring =>
    rcases notice with rfl | rfl <;> exact acquiring.lease_none.trans unheld.symm
  | loses _ acquiring => exact acquiring.lease_none
  | renews renewal => exact renewal.lease_eq
  | binds => rfl

/-- Every operation changes the lease as its actions say. -/
theorem next_lease (c : Client) (op : Op) (valid : c.Valid) :
    (machine.next c op).lease = observe c.lease op (machine.output c op) := by
  cases op with
  | start now previous =>
    obtain ⟨acquiring, message, sent⟩ := start_asked c now previous
    change (c.start now previous).1.lease = (c.start now previous).2.foldl record none
    rw [sent]
    exact acquiring.lease_none
  | release now =>
    change none = (c.release now).2.foldl record none
    rcases release_actions c now with sent | ⟨message, destination, sent⟩ <;> rw [sent] <;> rfl
  | renewNow now => exact (renewNow_move now valid).lease_eq
  | tick now => exact (tick_move now valid).lease_eq
  | receive now message => exact (receive_move now message valid).lease_eq

theorem Move.lost {now : ℕ} {c after : Client} {actions : List Action} (valid : c.Valid)
    (move : Move now c after actions) (lost : .lost ∈ actions) :
    c.lease.isSome = true ∧ ∀ lease, .bound lease ∉ actions := by
  cases move with
  | ignored | renews | binds => simp at lost
  | asks _ notice => rcases notice with rfl | rfl <;> simp at lost
  | loses held => exact ⟨valid.lease_isSome.trans held, by simp⟩

/-- A loss is reported only of a held lease, and never together with a new one. -/
theorem output_lost (c : Client) (op : Op) (valid : c.Valid) (lost : .lost ∈ machine.output c op) :
    c.lease.isSome = true ∧ ∀ lease, .bound lease ∉ machine.output c op := by
  cases op with
  | start now previous =>
    obtain ⟨message, sent⟩ := (start_asked c now previous).2
    change .lost ∈ (c.start now previous).2 at lost
    simp [sent] at lost
  | release now =>
    change .lost ∈ (c.release now).2 at lost
    rcases release_actions c now with sent | ⟨message, destination, sent⟩ <;> simp [sent] at lost
  | renewNow now => exact (renewNow_move now valid).lost valid lost
  | tick now => exact (tick_move now valid).lost valid lost
  | receive now message => exact (receive_move now message valid).lost valid lost

theorem State.holds_iff (state : State) :
    state.holds = true ↔ state = .bound ∨ state = .renewing ∨ state = .rebinding := by
  cases state <;> simp [State.holds]

/-- After any operations: a lease is held exactly in the states that hold one, with the instant it was
obtained; it is the one that folding the actions gives; and the next operation reports a loss only
of a held lease, never together with a new one. -/
theorem actions_tell_lease (config : Config) (created : ℕ) (ops : List Op) :
    let c := machine.run (new config created) ops
    ((c.lease.isSome = true ↔ c.boundAt.isSome = true) ∧
      (c.boundAt.isSome = true ↔ c.state = .bound ∨ c.state = .renewing ∨ c.state = .rebinding)) ∧
    c.lease = (ops.zip (machine.outputs (new config created) ops)).foldl
      (fun known entry => observe known entry.1 entry.2) none ∧
    ∀ op, (.lost ∈ machine.output c op → c.lease.isSome = true) ∧
      ¬ (.lost ∈ machine.output c op ∧ ∃ lease, .bound lease ∈ machine.output c op) := by
  intro c
  have valid : c.Valid := reachable_valid config created ops
  refine ⟨⟨?_, ?_⟩, ?_, fun op => ⟨fun lost => ?_, ?_⟩⟩
  · rw [valid.lease_isSome, valid.boundAt_isSome]
  · rw [valid.boundAt_isSome, State.holds_iff]
  · exact machine.run_observe (fun c => c.lease) observe machine_valid next_lease (valid_new config created) ops
  · exact (output_lost c op valid lost).1
  · rintro ⟨lost, lease, bound⟩
    exact (output_lost c op valid lost).2 lease bound

end Netd.Model.Dhcp4.Client
