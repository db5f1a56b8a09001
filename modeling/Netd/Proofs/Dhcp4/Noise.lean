import Netd.Proofs.Dhcp4.Moves

/-! # Messages that cannot disturb the DHCPv4 client

Anybody on the link can answer a DHCP client. `Noise` is everything the client must not hear:
messages for somebody else, messages nobody asked for, and, once a server was chosen, any answer
but an ACK or NAK of that server. Such messages leave every field of a reachable client alone, so
adding them to a run changes nothing, and the server of a held lease changes only after the lease
was given up.
-/

namespace Netd.Model.Dhcp4.Client

/-- The server the client waits for in the states that have chosen one. -/
def expectedServer (c : Client) : Option Ipv4Addr :=
  match c.state with
  | .requesting => c.offerServer
  | .renewing | .rebinding => c.lease.map Lease.server
  | .init | .selecting | .rebooting | .bound => none

/-- An ACK or NAK that carries the identifier of the server the client waits for. -/
def Answers (c : Client) (message : Message) : Prop :=
  (message.messageType = some .ack ∨ message.messageType = some .nak) ∧
    ∃ server, c.expectedServer = some server ∧ message.options.ipv4 option.serverId = some server

/-- The messages that a client must ignore. -/
inductive Noise (c : Client) (message : Message) : Prop
  | notReply (request : message.isReply = false)
  | otherXid (other : message.xid ≠ c.xid)
  | otherChaddr (other : message.chaddr ≠ c.config.chaddr)
  | unknownType (unknown : message.messageType = none)
  | unasked (idle : c.state = .init ∨ c.state = .bound)
  | unexpected (waiting : c.state = .requesting ∨ c.state = .renewing ∨ c.state = .rebinding)
      (stray : ¬ c.Answers message)

/-- In the states that wait for a server, the check of `receive` is against that server. -/
theorem chosen_eq_expectedServer {c : Client} (valid : c.Valid)
    (waiting : c.state = .requesting ∨ c.state = .renewing ∨ c.state = .rebinding) :
    c.chosen = c.expectedServer ∧ c.expectedServer.isSome = true := by
  rcases waiting with state | state | state
  · obtain ⟨leaseNone, _⟩ := valid.unheld (by rw [state]; rfl)
    have offered := valid.offered state
    simp only [chosen, expectedServer, state, leaseNone, Option.map_none, Option.none_or]
    exact ⟨rfl, offered⟩
  all_goals
    obtain ⟨lease, _, leaseEq, _, _⟩ := valid.held (by rw [state]; rfl)
    simp only [chosen, expectedServer, state, leaseEq, Option.map_some, Option.some_or, Option.isSome_some,
      and_self]

theorem dispatch_idle {c : Client} (now : ℕ) (kind : MessageType) (message : Message)
    (idle : c.state = .init ∨ c.state = .bound) : c.dispatch now kind message = (c, []) := by
  rcases idle with state | state <;> simp only [dispatch, state]

/-- Once a server was chosen, only ACKs and NAKs have an effect. -/
theorem dispatch_waiting {c : Client} (now : ℕ) {kind : MessageType} (message : Message)
    (waiting : c.state = .requesting ∨ c.state = .renewing ∨ c.state = .rebinding)
    (notAck : kind ≠ .ack) (notNak : kind ≠ .nak) : c.dispatch now kind message = (c, []) := by
  rcases waiting with state | state | state <;> cases kind <;> simp_all [dispatch]

/-- A stray message is either from a stranger or of a kind without effect. -/
private theorem stray_ignored {c : Client} (now : ℕ) {kind : MessageType} {message : Message}
    (valid : c.Valid) (waiting : c.state = .requesting ∨ c.state = .renewing ∨ c.state = .rebinding)
    (typed : message.messageType = some kind) (familiar : ¬ c.stranger kind message = true)
    (stray : ¬ c.Answers message) : c.dispatch now kind message = (c, []) := by
  obtain ⟨chosenEq, isSome⟩ := chosen_eq_expectedServer valid waiting
  obtain ⟨server, expected⟩ := Option.isSome_iff_exists.mp isSome
  rw [expected] at chosenEq
  have answers (answer : kind = .ack ∨ kind = .nak) : c.Answers message := by
    refine ⟨answer.imp (by rintro rfl; exact typed) (by rintro rfl; exact typed), server, expected, ?_⟩
    rcases answer with rfl | rfl <;> simpa [stranger, chosenEq] using familiar
  exact dispatch_waiting now message waiting (fun ack => stray (answers (.inl ack)))
    fun nak => stray (answers (.inr nak))

/-- Noise is ignored, in every field. -/
theorem receive_noise {c : Client} (now : ℕ) {message : Message} (valid : c.Valid)
    (noise : c.Noise message) : c.receive now message = (c, []) := by
  unfold receive
  split
  · rfl
  · next addressed =>
    simp only [Bool.or_eq_true, not_or, Bool.not_eq_true, bne_eq_false_iff_eq,
      Bool.not_eq_eq_eq_not] at addressed
    obtain ⟨⟨reply, xid⟩, chaddr⟩ := addressed
    split
    · rfl
    · next kind typed =>
      split
      · rfl
      · next familiar =>
        cases noise with
        | notReply request => exact absurd request reply
        | otherXid other => exact absurd xid other
        | otherChaddr other => exact absurd chaddr other
        | unknownType unknown => rw [typed] at unknown; contradiction
        | unasked idle => exact dispatch_idle now kind message idle
        | unexpected waiting stray => exact stray_ignored now valid waiting typed familiar stray

/-- The receipt of noise, as an operation. -/
def NoiseOp (c : Client) (op : Op) : Prop := ∃ now message, op = .receive now message ∧ c.Noise message

theorem noiseOp_ignored (c : Client) (op : Op) (valid : c.Valid) (noise : c.NoiseOp op) :
    machine.step c op = (c, []) := by
  obtain ⟨now, message, rfl, noise⟩ := noise
  exact receive_noise now valid noise

/-! ## The server of a holding period -/

/-- The operations that do not end a holding period by themselves. -/
def Op.continues : Op → Bool
  | .renewNow _ | .tick _ | .receive .. => true
  | .start .. | .release _ => false

/-- A lease of this server is held. -/
def HoldsFrom (server : Ipv4Addr) (c : Client) : Prop :=
  c.Valid ∧ ∃ lease, c.lease = some lease ∧ lease.server = server

/-- A step that keeps the lease keeps its server, in the client and in what it reports. -/
theorem Move.holdsFrom {now : ℕ} {c after : Client} {actions : List Action} {server : Ipv4Addr}
    (holds : HoldsFrom server c) (move : Move now c after actions) (kept : .lost ∉ actions) :
    HoldsFrom server after ∧ ∀ lease, .bound lease ∈ actions → lease.server = server := by
  obtain ⟨valid, lease, leaseEq, rfl⟩ := holds
  have valid' := move.valid valid
  cases move with
  | ignored => exact ⟨⟨valid, lease, leaseEq, rfl⟩, fun _ member => nomatch member⟩
  | asks unheld => rw [leaseEq] at unheld; contradiction
  | loses => simp at kept
  | renews renewal =>
    exact ⟨⟨valid', lease, renewal.lease_eq.trans leaseEq, rfl⟩, fun _ member => by simp at member⟩
  | @binds message bound accepted trusted =>
    have same : bound.server = lease.server := by
      have named := trusted lease.server (by simp [chosen, leaseEq])
      rw [(Lease.fromAck_read accepted).server] at named
      exact Option.some.inj named
    refine ⟨⟨valid', bound, rfl, same⟩, fun lease' member => ?_⟩
    obtain rfl : lease' = bound := by simpa using member
    exact same

/-- What the operations of a holding period do is one of the moves. -/
theorem machine_move {c : Client} {op : Op} (valid : c.Valid) (continues : op.continues = true) :
    ∃ now, Move now c (machine.next c op) (machine.output c op) := by
  cases op with
  | start | release => contradiction
  | renewNow now => exact ⟨now, renewNow_move now valid⟩
  | tick now => exact ⟨now, tick_move now valid⟩
  | receive now message => exact ⟨now, receive_move now message valid⟩

theorem Move.bound_lease {now : ℕ} {c after : Client} {actions : List Action} {lease : Lease}
    (move : Move now c after actions) (bound : .bound lease ∈ actions) : after.lease = some lease := by
  cases move with
  | ignored | renews | loses => simp at bound
  | asks _ notice => rcases notice with rfl | rfl <;> simp at bound
  | binds =>
    obtain rfl := Action.bound.inj (List.mem_singleton.mp bound)
    rfl

/-- An operation that reports a lease leaves the client holding it. -/
theorem bound_held {c : Client} {op : Op} {lease : Lease} (valid : c.Valid)
    (bound : .bound lease ∈ machine.output c op) : HoldsFrom lease.server (machine.next c op) := by
  by_cases continues : op.continues = true
  · obtain ⟨_, move⟩ := machine_move valid continues
    exact ⟨move.valid valid, lease, move.bound_lease bound, rfl⟩
  · exfalso
    cases op with
    | renewNow | tick | receive => exact continues rfl
    | start now previous =>
      obtain ⟨message, sent⟩ := (start_asked c now previous).2
      change .bound lease ∈ (c.start now previous).2 at bound
      simp [sent] at bound
    | release now =>
      change .bound lease ∈ (c.release now).2 at bound
      rcases release_actions c now with sent | ⟨message, destination, sent⟩ <;> simp [sent] at bound

/-- Every lease reported until the next loss is from the same server. -/
theorem holding_server {c : Client} {server : Ipv4Addr} (holds : HoldsFrom server c) (later : List Op)
    (continues : ∀ op ∈ later, op.continues = true) (kept : ∀ out ∈ machine.outputs c later, .lost ∉ out) :
    ∀ out ∈ machine.outputs c later, ∀ lease, .bound lease ∈ out → lease.server = server := by
  induction later generalizing c with
  | nil => exact fun _ member => nomatch member
  | cons op rest ih =>
    obtain ⟨now, move⟩ := machine_move holds.1 (continues op List.mem_cons_self)
    obtain ⟨holds', reported⟩ := move.holdsFrom holds (kept _ List.mem_cons_self)
    intro out member
    rcases List.mem_cons.mp member with rfl | member
    · exact reported
    · exact ih holds' (fun op member => continues op (List.mem_cons_of_mem _ member))
        (fun out member => kept out (List.mem_cons_of_mem _ member)) out member

/-- Noise immunity and server lock: noise leaves a reachable client alone; adding it to a run changes
neither the other answers nor the endpoint; and from a reported lease to the next loss, start or
release, only that server's leases are reported. -/
theorem noise_immunity (config : Config) (created : ℕ) :
    (∀ ops now message, (machine.run (new config created) ops).Noise message →
      (machine.run (new config created) ops).receive now message =
        (machine.run (new config created) ops, [])) ∧
    (∀ marked, machine.Inserted NoiseOp (new config created) marked →
      machine.run (new config created) (marked.map Prod.fst) =
          machine.run (new config created) (Transducer.original marked) ∧
        ((marked.zip (machine.outputs (new config created) (marked.map Prod.fst))).filter
            fun entry => !entry.1.2).map Prod.snd =
          machine.outputs (new config created) (Transducer.original marked) ∧
        ∀ entry ∈ marked.zip (machine.outputs (new config created) (marked.map Prod.fst)),
          entry.1.2 = true → entry.2 = []) ∧
    ∀ earlier op later lease, .bound lease ∈ machine.output (machine.run (new config created) earlier) op →
      (∀ next ∈ later, next.continues = true) →
      (∀ out ∈ machine.outputs (machine.run (new config created) (earlier ++ [op])) later, .lost ∉ out) →
      ∀ out ∈ machine.outputs (machine.run (new config created) (earlier ++ [op])) later,
        ∀ lease', .bound lease' ∈ out → lease'.server = lease.server := by
  refine ⟨fun ops now message noise => ?_, fun marked inserted => ?_,
    fun earlier op later lease bound continues kept => ?_⟩
  · exact receive_noise now (reachable_valid config created ops) noise
  · exact machine.run_inserted machine_valid noiseOp_ignored (valid_new config created) marked inserted
  · rw [machine.run_append] at kept ⊢
    have holds := bound_held (reachable_valid config created earlier) bound
    exact holding_server holds later continues kept

end Netd.Model.Dhcp4.Client
