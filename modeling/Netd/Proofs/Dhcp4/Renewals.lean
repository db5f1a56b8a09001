import Netd.Proofs.Dhcp4.Ticks

/-! # Renewals on request

A renewal that is asked for has its REQUEST out under a new transaction id. Whether its answer can still arrive
is a matter of T2: before T2 nothing but the answer or the deadline comes next, and from T2 on the deadline has
passed already, so that the next tick starts rebinding under yet another id.
-/

namespace Netd.Model.Dhcp4

/-- An ACK of a server to a request, with the lease it grants. -/
structure Acknowledges (request : Message) (server : Ipv4Addr) (ack : Message) (granted : Lease) : Prop where
  reply : ack.isReply = true
  xid : ack.xid = request.xid
  chaddr : ack.chaddr = request.chaddr
  kind : ack.messageType = some .ack
  server : ack.options.ipv4 option.serverId = some server
  reads : Lease.fromAck ack = some granted

namespace Client

/-- A client and what it sent, once a renewal was asked for at `now`: its answer binds, and until the deadline,
which is still to come, no tick disturbs it. -/
structure Undisturbed (now : ℕ) (before : Client) (lease : Lease) (renewed : Client × List Action) : Prop where
  state : renewed.1.state = .renewing
  xid : renewed.1.xid = before.nextRandom.1
  deadline : ∃ due, renewed.1.nextDeadline = some due ∧ now < due ∧ ∀ t < due, renewed.1.tick t = (renewed.1, [])
  answered : ∃ request, renewed.2 = [.send request (.unicast lease.server lease.address)] ∧
    ∀ t ack granted, Acknowledges request lease.server ack granted →
      (renewed.1.receive t ack).1.state = .bound ∧ (renewed.1.receive t ack).1.lease = some granted ∧
        (renewed.1.receive t ack).2 = [.bound granted]

/-- A renewing client takes the answer of its server. -/
theorem receive_acknowledged {c : Client} {lease granted : Lease} {request ack : Message} (t : ℕ)
    (state : c.state = .renewing) (held : c.lease = some lease) (xid : request.xid = c.xid)
    (chaddr : request.chaddr = c.config.chaddr) (answer : Acknowledges request lease.server ack granted) :
    c.receive t ack = c.receiveAck t ack := by
  have addressed : (!ack.isReply || ack.xid != c.xid || ack.chaddr != c.config.chaddr) = false := by
    rw [answer.reply, answer.xid, answer.chaddr, xid, chaddr]
    simp
  have familiar : c.stranger .ack ack = false := by
    rw [stranger, chosen, held, Option.map_some, Option.some_or, Option.any_some, answer.server, bne_self_eq_false,
      Bool.and_false]
  rw [receive, addressed, if_neg Bool.false_ne_true, answer.kind]
  dsimp only
  rw [familiar, if_neg Bool.false_ne_true]
  simp only [dispatch, state]

theorem pushOption_xid (message : Message) (code : U8) (data : Bytes) : (message.pushOption code data).xid = message.xid :=
  rfl

theorem pushOption_chaddr (message : Message) (code : U8) (data : Bytes) :
    (message.pushOption code data).chaddr = message.chaddr := rfl

theorem commonOptions_xid (c : Client) (message : Message) (kind : MessageType) :
    (c.commonOptions message kind).xid = message.xid ∧ (c.commonOptions message kind).chaddr = message.chaddr := by
  rw [commonOptions]
  cases c.config.hostname with
  | none => simp only [pushOption_xid, pushOption_chaddr, and_self]
  | some hostname => simp only [pushOption_xid, pushOption_chaddr, and_self]

/-- What a renewal that is asked for does to a client that holds a lease. -/
theorem renewNow_held {c : Client} (now : ℕ) {boundAt : ℕ} {lease : Lease} (valid : c.Valid) (held : c.lease = some lease)
    (since : c.boundAt = some boundAt) :
    ∃ request due, c.renewNow now =
        ({ c.nextRandom.2 with
            state := .renewing
            xid := c.nextRandom.1
            attempts := 0
            retransmitAt := some due }, [.send request (.unicast lease.server lease.address)]) ∧
      now < due ∧ request.xid = c.nextRandom.1 ∧ request.chaddr = c.config.chaddr := by
  have holds : c.state.holds = true := by rw [← valid.lease_isSome, held]; rfl
  have kept : c.nextRandom.2.lease = some lease := held
  have bound : c.nextRandom.2.boundAt = some boundAt := since
  rw [renewNow, if_pos holds, enterRenewing, sendRenewal]
  dsimp only
  rw [kept, bound]
  refine ⟨_, _, rfl, ?_, (commonOptions_xid ..).1, (commonOptions_xid ..).2⟩
  simp only [minRetransmit, Duration.fromSecs]
  omega

/-- A renewal that is asked for stands until T2 and no longer. -/
theorem renewal_undisturbed_iff (config : Config) (created : ℕ) (ops : List Op) (now boundAt : ℕ) (lease : Lease) :
    let c := machine.run (new config created) ops
    c.lease = some lease → c.boundAt = some boundAt →
      (Undisturbed now c lease (c.renewNow now) ↔ now < leaseInstant boundAt lease.t2) := by
  intro c held since
  have valid : c.Valid := reachable_valid config created ops
  obtain ⟨request, resend, renewed, later, xid, chaddr⟩ := renewNow_held now valid held since
  have boundary : (c.renewNow now).1.boundary = some (leaseInstant boundAt lease.t2) := by
    rw [renewed]
    simp only [Client.boundary, nextRandom, held, since]
  have resent : (c.renewNow now).1.retransmitAt = some resend := by rw [renewed]
  have due : (c.renewNow now).1.nextDeadline = some (min resend (leaseInstant boundAt lease.t2)) := by
    rw [nextDeadline, boundary, resent]
    rfl
  constructor
  · intro undisturbed
    obtain ⟨deadline, found, ahead, -⟩ := undisturbed.deadline
    obtain rfl := Option.some.inj (due.symm.trans found)
    exact (lt_min_iff.mp ahead).2
  · intro early
    refine ⟨?_, ?_, ⟨_, due, lt_min later early, ?_⟩, request, ?_, ?_⟩
    · rw [renewed]
    · rw [renewed]
    · intro t before
      exact tick_ahead (by rw [due]; exact Deadline.ahead_some.mpr before)
    · rw [renewed]
    · intro t ack granted answer
      have taken : (c.renewNow now).1.receive t ack = (c.renewNow now).1.receiveAck t ack := by
        apply receive_acknowledged t _ _ _ _ answer
        · rw [renewed]
        · rw [renewed]
          exact held
        · rw [renewed]
          exact xid
        · rw [renewed]
          exact chaddr
      rw [taken, receiveAck, answer.reads]
      exact ⟨rfl, rfl, rfl⟩

/-! ## A renewal that is undone -/

/-- A client that is offered, and granted, 100 s: T1 at 50 s, T2 at 87 s. -/
def hurried : Config := ⟨0x020000000001, [1], none, 1⟩

/-- A server's answer to whatever a client asked last. -/
def answerTo (c : Client) (kind : MessageType) : Message :=
  { Message.request c.xid hurried.chaddr with
    isReply := true
    yiaddr := 0xc0a80142
    options :=
      [(option.messageType, [kind.toU8]), (option.serverId, [192, 168, 1, 1]), (option.leaseTime, [0, 0, 0, 100])] }

/-- A client that joined at once, renewed at T1 and rebinds since T2. -/
def rebindingOps : List Op :=
  let selecting := machine.run (new hurried 0) [.start 0 none]
  let requesting := machine.next selecting (.receive 0 (answerTo selecting .offer))
  [.start 0 none, .receive 0 (answerTo selecting .offer), .receive 0 (answerTo requesting .ack),
    .tick (Duration.fromSecs 50), .tick (Duration.fromSecs 87)]

/-- The lease it holds. -/
def hurriedLease : Lease where
  address := 0xc0a80142
  prefixLength := 24
  server := 0xc0a80101
  routers := []
  dns := []
  domain := none
  search := []
  hostname := none
  mtu := none
  broadcast := none
  ntp := []
  staticRoutes := []
  leaseTime := 100
  t1 := 50
  t2 := 87

/-- A renewal that is asked for ten seconds into the lease stands. -/
theorem early_renewal_stands :
    let c := machine.run (new hurried 0) (rebindingOps.take 3)
    c.lease = some hurriedLease ∧ c.boundAt = some 0 ∧
      Undisturbed (Duration.fromSecs 10) c hurriedLease (c.renewNow (Duration.fromSecs 10)) := by
  intro c
  have held : c.lease = some hurriedLease ∧ c.boundAt = some 0 := by decide +kernel
  have stands := renewal_undisturbed_iff hurried 0 (rebindingOps.take 3) (Duration.fromSecs 10) 0 hurriedLease
  exact ⟨held.1, held.2, (stands held.1 held.2).mpr (by decide)⟩

/-- One second after T2 nothing is due, and the lease has twelve seconds left. A renewal that is asked for then
has a deadline in the past, and the next tick leaves `Renewing` under another transaction id: the server's answer
to the request is not heard. -/
theorem late_renewal_undone :
    let c := machine.run (new hurried 0) rebindingOps
    let now := Duration.fromSecs 88
    let renewed := c.renewNow now
    c.lease = some hurriedLease ∧ c.boundAt = some 0 ∧ now < leaseInstant 0 hurriedLease.leaseTime ∧
      Deadline.Ahead now c.nextDeadline ∧ ¬Undisturbed now c hurriedLease renewed ∧
      (renewed.1.tick now).1.state = .rebinding ∧
      (renewed.1.tick now).1.receive now (answerTo renewed.1 .ack) = ((renewed.1.tick now).1, []) := by
  intro c now renewed
  have held : c.lease = some hurriedLease ∧ c.boundAt = some 0 := by decide +kernel
  have passed : renewed.1.nextDeadline = some (Duration.fromSecs 87) := by decide +kernel
  have undone : (renewed.1.tick now).1.state = .rebinding ∧
      (renewed.1.tick now).1.receive now (answerTo renewed.1 .ack) = ((renewed.1.tick now).1, []) := by
    decide +kernel
  refine ⟨held.1, held.2, by decide, by decide +kernel, ?_, undone⟩
  intro undisturbed
  obtain ⟨due, found, ahead, -⟩ := undisturbed.deadline
  obtain rfl := Option.some.inj (passed.symm.trans found)
  exact absurd ahead (by decide)

end Client

end Netd.Model.Dhcp4
