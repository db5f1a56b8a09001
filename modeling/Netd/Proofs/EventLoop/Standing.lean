import Netd.Model.EventLoop
import Netd.Proofs.Dhcp4.Moves
import Netd.Proofs.Ndp.Punctual

/-! # What a silent handler leaves alone

What an interface should look like, and what it contributes to name resolution, is read from its
clients at an instant. The part of the interface that is read, with the engine's last reported view
in place of its view, is its standing. No handler changes the standing without reporting it; and
once an engine was ticked its view is the one it last reported.
-/

namespace Netd.Model.Dhcp6.Client

/-- A datagram that is not reported leaves the information as it was. -/
theorem receive_info {c : Client} {now : ℕ} {datagram : Bytes}
    (silent : .changed ∉ (c.receive now datagram).2) : (c.receive now datagram).1.info = c.info := by
  rw [receive] at silent ⊢
  split_ifs at silent ⊢ with idle
  · rfl
  · cases parsed : c.parseReply datagram with
    | none => rfl
    | some info =>
      simp only [parsed] at silent ⊢
      split_ifs at silent ⊢ with known
      · rfl
      · exact absurd (List.mem_singleton_self _) silent

/-- Time passes without a word from the server. -/
theorem tick_info (c : Client) (now : ℕ) : (c.tick now).1.info = c.info := by
  rw [tick]
  split_ifs <;> rfl

end Netd.Model.Dhcp6.Client

namespace Netd.Model.Interface

/-- What desired state and name resolution are read from, the engine through its last report. -/
structure Standing where
  link : Link
  outcome : Outcome
  lease : Option Dhcp4.Lease
  restart : Option Restart
  linkLocal : Option Ipv4Addr
  view : Option Ndp.View
  info : Option Dhcp6.Info

def standing (i : Interface) : Standing where
  link := i.link
  outcome := i.outcome
  lease := i.lease
  restart := i.restart
  linkLocal := i.linkLocal
  view := i.ndp.map fun e => e.lastView
  info := i.dhcp6.bind fun c => c.info

/-- The engine's view at an instant is the one it last reported. -/
def Seen (now : ℕ) (i : Interface) : Prop := ∀ e ∈ i.ndp, e.view now = e.lastView

/-- The engine's word at an instant at which it has reported. -/
theorem engine_congr {first second : Option Ndp.Engine} {t now : ℕ}
    (before : ∀ e ∈ first, e.view t = e.lastView) (after : ∀ e ∈ second, e.view now = e.lastView)
    (same : (first.map fun e => e.lastView) = second.map fun e => e.lastView) :
    (first.map fun e => e.view t) = second.map fun e => e.view now := by
  rw [Option.map_congr before, same, Option.map_congr after]

theorem routers_eq (i : Interface) (now : ℕ) :
    i.routers now =
      { mtu := (i.ndp.map fun e => e.view now).bind fun v => v.mtu
        addresses := ((i.ndp.map fun e => e.view now).map fun v => v.addresses).getD []
        router := (i.ndp.map fun e => e.view now).bind fun v => v.router } := by
  rw [routers]
  cases i.ndp <;> rfl

theorem engineDns_eq (engine : Option Ndp.Engine) (now : ℕ) :
    engineDns engine now =
      match engine.map fun e => e.view now with
      | none => ([], [])
      | some view => (view.dns.map IpAddr.v6, view.search) := by
  cases engine <;> rfl

/-- Interfaces of the same standing want the same, each at an instant its engine has reported. -/
theorem reconciled_congr {i j : Interface} {t now : ℕ} (before : Seen t i) (after : Seen now j)
    (same : i.standing = j.standing) : Loop.reconciled i t = Loop.reconciled j now := by
  simp only [standing, Standing.mk.injEq] at same
  obtain ⟨link, outcome, lease, restart, linkLocal, view, info⟩ := same
  have views := engine_congr before after view
  have routers : i.routers t = j.routers now := by rw [routers_eq, routers_eq, views]
  have engine : engineDns i.ndp t = engineDns j.ndp now := by rw [engineDns_eq, engineDns_eq, views]
  have profile : i.profile = j.profile := by rw [Interface.profile, Interface.profile, link, outcome]
  have metric : i.metric = j.metric := by rw [Interface.metric, Interface.metric, profile, link]
  have joined (address : AddressConfig) (r : Routers) : i.joined address r = j.joined address r := by
    simp only [Interface.joined, link, lease, linkLocal, restart, metric]
  have offered : i.offeredDns t = j.offeredDns now := by
    rw [offeredDns, offeredDns, lease, engine, info]
  apply Prod.ext
  · simp only [Loop.reconciled, desired, link, outcome, joined, routers]
  · simp only [Loop.reconciled, dns, profile, lease, offered]

/-! ## Actions -/

theorem performAction_silent {r : Interface × Bool} {action : Dhcp4.Action}
    (silent : (performAction r action).2 = false) :
    r.2 = false ∧ (performAction r action).1.standing = r.1.standing := by
  obtain ⟨i, changed⟩ := r
  cases action with
  | send message destination => exact ⟨silent, rfl⟩
  | bound lease => cases silent
  | noOffer =>
    simp only [performAction] at silent ⊢
    split_ifs at silent ⊢
    exact ⟨silent, rfl⟩
  | lost =>
    simp only [performAction] at silent ⊢
    split_ifs at silent ⊢
    exact ⟨silent, rfl⟩

theorem finishRestart_silent {i : Interface} (silent : i.finishRestart.2 = false) :
    i.finishRestart.1.standing = i.standing := by
  simp only [finishRestart] at silent ⊢
  split_ifs at silent ⊢
  · have none : i.restart = none := by simpa using silent
    simp only [standing, none]
  · rfl

/-- Performing actions without reporting a change leaves the standing alone. -/
theorem perform_silent {i : Interface} {actions : List Dhcp4.Action}
    (silent : (i.perform actions).2 = false) : (i.perform actions).1.standing = i.standing := by
  suffices every : ∀ r : Interface × Bool, (actions.foldl performAction r).2 = false →
      r.2 = false ∧ (actions.foldl performAction r).1.standing = r.1.standing by
    obtain ⟨quiet, same⟩ := every i.finishRestart silent
    exact same.trans (finishRestart_silent quiet)
  clear silent
  induction actions with
  | nil => exact fun r quiet => ⟨quiet, rfl⟩
  | cons action rest ih =>
    intro r quiet
    obtain ⟨first, same⟩ := ih (performAction r action) quiet
    obtain ⟨start, unchanged⟩ := performAction_silent first
    exact ⟨start, same.trans unchanged⟩

/-- Only what an action can touch is other than it was. -/
def ActionOnly (before after : Interface) : Prop :=
  ∃ lease linkLocal discoveryUnanswered rejudge,
    after = { before with lease, linkLocal, discoveryUnanswered, rejudge }

theorem performAction_only (r : Interface × Bool) (action : Dhcp4.Action) :
    ActionOnly r.1 (performAction r action).1 := by
  obtain ⟨i, changed⟩ := r
  cases action with
  | send message destination => exact ⟨_, _, _, _, rfl⟩
  | bound lease => exact ⟨_, _, _, _, rfl⟩
  | noOffer =>
    simp only [performAction]
    split_ifs <;> exact ⟨_, _, _, _, rfl⟩
  | lost =>
    simp only [performAction]
    split_ifs <;> exact ⟨_, _, _, _, rfl⟩

theorem foldl_performAction_only (r : Interface × Bool) (actions : List Dhcp4.Action) :
    ActionOnly r.1 (actions.foldl performAction r).1 := by
  induction actions generalizing r with
  | nil => exact ⟨_, _, _, _, rfl⟩
  | cons action rest ih =>
    obtain ⟨_, _, _, _, first⟩ := performAction_only r action
    obtain ⟨_, _, _, _, later⟩ := ih (performAction r action)
    rw [List.foldl_cons, later, first]
    exact ⟨_, _, _, _, rfl⟩

/-- Performing actions leaves the clients alone, and ends with provisional state only in INIT-REBOOT. -/
theorem perform_frame (i : Interface) (actions : List Dhcp4.Action) :
    (i.perform actions).1.dhcp = i.dhcp ∧ (i.perform actions).1.ndp = i.ndp ∧
      ((i.perform actions).1.restart.isSome = true →
        i.dhcp.map (fun c => c.state) = some .rebooting) := by
  obtain ⟨_, _, _, _, same⟩ := foldl_performAction_only i.finishRestart actions
  rw [perform, same, finishRestart]
  split_ifs with rebooting
  · exact ⟨rfl, rfl, fun kept => nomatch kept⟩
  · exact ⟨rfl, rfl, fun _ => not_not.mp rebooting⟩

/-! ## The interface between handlers -/

/-- What every reachable interface has: clients that were driven through their operations only, and
provisional state only while the client is in INIT-REBOOT. -/
structure Sound (i : Interface) : Prop where
  clients : ∀ c ∈ i.dhcp, c.Valid
  engines : ∀ e ∈ i.ndp, e.Paced
  provisional : i.restart.isSome = true → i.dhcp.map (fun c => c.state) = some .rebooting

/-- A sound interface that keeps a standing unless a change was reported. -/
def Tells (before : Standing) (r : Interface × Bool) : Prop :=
  Sound r.1 ∧ (r.2 = false → r.1.standing = before)

/-- A handler that never changes the standing of an interface without reporting it. -/
def Candid (handler : Interface → Interface × Bool) : Prop :=
  ∀ i, Sound i → Tells i.standing (handler i)

theorem Tells.andThen {before : Standing} {r : Interface × Bool}
    {handler : Interface → Interface × Bool} (tells : Tells before r) (candid : Candid handler) :
    Tells before (andThen r handler) := by
  obtain ⟨sound, same⟩ := candid r.1 tells.1
  refine ⟨sound, fun silent => ?_⟩
  obtain ⟨first, second⟩ := Bool.or_eq_false_iff.mp silent
  exact (same second).trans (tells.2 first)

theorem Tells.foldl {α : Type*} {before : Standing} {r : Interface × Bool}
    {handler : α → Interface → Interface × Bool} (tells : Tells before r)
    (candid : ∀ input, Candid (handler input)) (inputs : List α) :
    Tells before (inputs.foldl (fun r input => Interface.andThen r (handler input)) r) := by
  induction inputs generalizing r with
  | nil => exact tells
  | cons input rest ih => exact ih (tells.andThen (candid input))

theorem perform_tells {i : Interface} (clients : ∀ c ∈ i.dhcp, c.Valid)
    (engines : ∀ e ∈ i.ndp, e.Paced) (actions : List Dhcp4.Action) :
    Tells i.standing (i.perform actions) := by
  obtain ⟨dhcp, ndp, provisional⟩ := perform_frame i actions
  refine ⟨⟨?_, ?_, ?_⟩, perform_silent⟩
  · rw [dhcp]
    exact clients
  · rw [ndp]
    exact engines
  · rw [dhcp]
    exact provisional

/-! ## The handlers -/

/-- A client that moved, with its actions performed. -/
theorem moved_tells {i : Interface} {c after : Dhcp4.Client} {now : ℕ} {actions : List Dhcp4.Action}
    (sound : Sound i) (client : i.dhcp = some c) (move : c.Move now after actions) :
    Tells i.standing (perform { i with dhcp := some after } actions) := by
  refine perform_tells (i := { i with dhcp := some after }) ?_ sound.engines actions
  rintro _ ⟨⟩
  exact move.valid (sound.clients c client)

theorem receiveMessage_candid (now : ℕ) (message : Dhcp4.Message) :
    Candid (receiveMessage now message) := by
  intro i sound
  rw [receiveMessage]
  cases client : i.dhcp with
  | none => exact ⟨sound, fun _ => rfl⟩
  | some c => exact moved_tells sound client (Dhcp4.Client.receive_move now message (sound.clients c client))

theorem tickDhcp_candid (now : ℕ) : Candid (tickDhcp now) := by
  intro i sound
  rw [tickDhcp]
  cases client : i.dhcp with
  | none => exact perform_tells sound.clients sound.engines []
  | some c => exact moved_tells sound client (Dhcp4.Client.tick_move now (sound.clients c client))

theorem renew_candid (now : ℕ) : Candid (renew now) := by
  intro i sound
  rw [renew]
  cases client : i.dhcp with
  | none => exact ⟨sound, fun _ => rfl⟩
  | some c => exact moved_tells sound client (Dhcp4.Client.renewNow_move now (sound.clients c client))

/-- Provisional state that may stay is not reported. -/
theorem finishRestart_quiet {i : Interface}
    (provisional : i.restart.isSome = true → i.dhcp.map (fun c => c.state) = some .rebooting) :
    i.finishRestart.2 = false := by
  rw [finishRestart]
  split_ifs with ended
  · by_contra kept
    exact ended (provisional (Bool.eq_true_of_not_eq_false kept))
  · rfl

/-- A renewal reports nothing: there is no provisional state to end, and it only sends. -/
theorem renew_silent {i : Interface} (sound : Sound i) (now : ℕ) : (i.renew now).2 = false := by
  rw [renew]
  cases client : i.dhcp with
  | none => rfl
  | some c =>
    simp only [Dhcp4.Client.renewNow]
    split_ifs with holds
    · have held : i.restart.isSome = false := by
        by_contra kept
        have state := sound.provisional (Bool.eq_true_of_not_eq_false kept)
        rw [client, Option.map_some, Option.some.injEq] at state
        rw [state] at holds
        contradiction
      obtain ⟨_, message, destination, sent⟩ :=
        Dhcp4.Client.enterRenewing_renewed now (sound.clients c client) holds
      rw [sent]
      apply finishRestart_quiet (i := { i with dhcp := some (c.enterRenewing now).1 })
      intro kept
      rw [held] at kept
      contradiction
    · apply finishRestart_quiet (i := { i with dhcp := some c })
      intro kept
      exact client ▸ sound.provisional kept

/-! ## Engines -/

variable (sha1 : Bytes → BitVec 160)

/-- An engine that reports no change still stands by its last report. -/
theorem engine_silent {e : Ndp.Engine} (op : Ndp.Engine.Op) (paced : e.Paced)
    (silent : .changed ∉ (Ndp.Engine.machine sha1).output e op) :
    ((Ndp.Engine.machine sha1).next e op).lastView = e.lastView := by
  rcases Ndp.Engine.next_current sha1 op paced with ignored | ⟨current, changed⟩
  · rw [Transducer.next, ignored]
  · rw [changed, not_not] at silent
    exact current.seen.trans silent

theorem stepped_tells {i : Interface} {e : Ndp.Engine} (sound : Sound i) (engine : i.ndp = some e)
    (op : Ndp.Engine.Op) :
    Tells i.standing ({ i with ndp := some ((Ndp.Engine.machine sha1).next e op) },
      performNdp ((Ndp.Engine.machine sha1).output e op)) := by
  have paced := sound.engines e engine
  refine ⟨⟨sound.clients, ?_, sound.provisional⟩, fun silent => ?_⟩
  · rintro _ ⟨⟩
    exact Ndp.Engine.next_paced sha1 op paced
  · have quiet : .changed ∉ (Ndp.Engine.machine sha1).output e op := by simpa [performNdp] using silent
    simp only [standing, engine, Option.map_some, engine_silent sha1 op paced quiet]

theorem receiveAdvert_candid (now : ℕ) (message : Ipv6Addr × U8 × Bytes) :
    Candid (receiveAdvert sha1 now message) := by
  intro i sound
  rw [receiveAdvert]
  split_ifs
  · exact ⟨sound, fun _ => rfl⟩
  · cases engine : i.ndp with
    | none => exact ⟨sound, fun _ => rfl⟩
    | some e => exact stepped_tells sha1 sound engine (.receive now message.1 message.2.2)

theorem tickNdp_candid (now : ℕ) : Candid (tickNdp now) := by
  intro i sound
  rw [tickNdp]
  cases engine : i.ndp with
  | none => exact ⟨sound, fun _ => rfl⟩
  | some e =>
    have ticked := stepped_tells (fun _ => 0) sound engine (.tick now)
    rw [Ndp.Engine.next_tick, Ndp.Engine.output_tick] at ticked
    dsimp only
    generalize e.tick now = result at ticked ⊢
    exact ticked

/-- An engine that was ticked has reported its view. -/
theorem tickNdp_seen {i : Interface} (sound : Sound i) (now : ℕ) : Seen now (i.tickNdp now).1 := by
  rw [tickNdp]
  cases engine : i.ndp with
  | none =>
    intro e member
    rw [engine] at member
    contradiction
  | some e =>
    intro ticked member
    obtain rfl : (e.tick now).1 = ticked := Option.some.inj member
    exact (Ndp.Engine.tick_spec now (sound.engines e engine)).1.seen.symm

/-- The engine of an interface that starts one has just been started. -/
theorem mem_startNdp {i : Interface} {env : Environment} {secret : Bytes} {e : Ndp.Engine}
    (member : e ∈ (i.startNdp env secret).ndp) : ∃ config, e = ((Ndp.Engine.new config).start env.now).1 := by
  rw [startNdp] at member
  exact ⟨_, (Option.some.inj member).symm⟩

/-! ## DHCPv6 -/

theorem receiveDatagram_candid (now : ℕ) (datagram : Bytes) :
    Candid (receiveDatagram now datagram) := by
  intro i sound
  rw [receiveDatagram]
  cases client : i.dhcp6 with
  | none => exact ⟨sound, fun _ => rfl⟩
  | some c =>
    refine ⟨⟨sound.clients, sound.engines, sound.provisional⟩, fun silent => ?_⟩
    have same := Dhcp6.Client.receive_info (by simpa [performDhcp6] using silent)
    simp only [standing, client, Option.bind_some, same]

theorem tickDhcp6_candid (now : ℕ) : Candid (tickDhcp6 now) := by
  intro i sound
  rw [tickDhcp6]
  cases client : i.dhcp6 with
  | none => exact ⟨sound, fun _ => rfl⟩
  | some c =>
    refine ⟨⟨sound.clients, sound.engines, sound.provisional⟩, fun _ => ?_⟩
    simp only [standing, client, Option.bind_some, Dhcp6.Client.tick_info]

theorem tickDhcp6_ndp (now : ℕ) (i : Interface) : (i.tickDhcp6 now).1.ndp = i.ndp := by
  rw [tickDhcp6]
  cases i.dhcp6 <;> rfl

theorem renew_ndp (now : ℕ) (i : Interface) : (i.renew now).1.ndp = i.ndp := by
  rw [renew]
  cases i.dhcp with
  | none => rfl
  | some c => exact (perform_frame _ _).2.1

end Netd.Model.Interface
