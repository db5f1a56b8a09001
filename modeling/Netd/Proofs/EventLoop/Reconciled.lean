import Netd.Proofs.EventLoop.Passes
import Netd.Proofs.EventLoop.Standing

/-! # No missed reconcile

An iteration that reports nothing leaves what the interface wants as it was at the end of the one
before, however much time has passed: every engine was ticked then and is ticked now, so its view is
its last report at both instants. Passes start and stop clients but reconcile in any case. The loop
therefore always has applied what the interface wants.
-/

namespace Netd.Model.Ndp.Engine

/-- No router has said anything. -/
def Untold (e : Engine) : Prop :=
  e.routers = .empty ∧ e.prefixes = .empty ∧ e.rdnss = .empty ∧ e.dnssl = .empty ∧ e.mtu = none ∧
    e.dhcp6Wanted = false

theorem Untold.view {e : Engine} (untold : e.Untold) (now : ℕ) : e.view now = .default := by
  obtain ⟨routers, prefixes, rdnss, dnssl, mtu, dhcp6⟩ := untold
  simp only [Engine.view, defaultRouter, dnsServers, searchDomains, routers, prefixes, rdnss, dnssl, mtu, dhcp6]
  rfl

/-- An engine that was just started sees nothing, at whatever instant. -/
theorem started_view (config : Config) (begun now : ℕ) :
    ((new config).start begun).1.view now = ((new config).start begun).1.lastView := by
  let asking : Engine := { new config with solicitAt := some begun }
  obtain ⟨rng, at', interval, solicits, shape, _⟩ := solicitDue_spec (e := asking.expire begun) begun
    (asking.expire_paced begun (new_paced config))
  have untold : Untold ((asking.expire begun).solicitDue begun).1 := by
    rw [shape]
    exact ⟨rfl, rfl, rfl, rfl, rfl, rfl⟩
  have last : ((new config).start begun).1 =
      { ((asking.expire begun).solicitDue begun).1 with
        lastView := ((asking.expire begun).solicitDue begun).1.view begun } :=
    emitIfChanged_fst _ begun _
  rw [last, untold.view begun]
  generalize ((asking.expire begun).solicitDue begun).1 = after at untold
  exact untold.view now

end Netd.Model.Ndp.Engine

namespace Netd.Model.Interface

/-! ## Iterations -/

section Iterations

variable (sha1 : Bytes → BitVec 160)

theorem serve_tells {i : Interface} (sound : Sound i) (it : Iteration) :
    Tells i.standing (i.serve sha1 it) := by
  have start : Tells i.standing (i, false) := ⟨sound, fun _ => rfl⟩
  have messages := start.foldl (receiveMessage_candid it.now) it.messages
  have adverts := messages.foldl (receiveAdvert_candid sha1 it.now) it.adverts
  have datagrams := adverts.foldl (receiveDatagram_candid it.now) it.datagrams
  exact ((datagrams.andThen (tickDhcp_candid it.now)).andThen (tickNdp_candid it.now)).andThen
    (tickDhcp6_candid it.now)

theorem serve_seen {i : Interface} (sound : Sound i) (it : Iteration) :
    Seen it.now (i.serve sha1 it).1 := by
  have start : Tells i.standing (i, false) := ⟨sound, fun _ => rfl⟩
  have messages := start.foldl (receiveMessage_candid it.now) it.messages
  have adverts := messages.foldl (receiveAdvert_candid sha1 it.now) it.adverts
  have datagrams := adverts.foldl (receiveDatagram_candid it.now) it.datagrams
  have ticked := tickNdp_seen (datagrams.andThen (tickDhcp_candid it.now)).1 it.now
  intro e member
  rw [serve, andThen, tickDhcp6_ndp] at member
  exact ticked e member

/-- Renewals keep what was served, and report nothing. -/
theorem foldl_renew {before : Standing} {r : Interface × Bool} (tells : Tells before r)
    (renewals : List ℕ) :
    (renewals.foldl (fun r now => andThen r (renew now)) r).2 = r.2 ∧
      (renewals.foldl (fun r now => andThen r (renew now)) r).1.ndp = r.1.ndp := by
  induction renewals generalizing r with
  | nil => exact ⟨rfl, rfl⟩
  | cons now rest ih =>
    obtain ⟨same, ndp⟩ := ih (tells.andThen (renew_candid now))
    refine ⟨same.trans ?_, ndp.trans (renew_ndp now r.1)⟩
    rw [andThen, renew_silent tells.1, Bool.or_false]

/-- What an iteration does to a sound interface. -/
theorem iterate_spec {i : Interface} (sound : Sound i) (it : Iteration) :
    Tells i.standing (i.iterate sha1 it) ∧ Seen it.now (i.iterate sha1 it).1 ∧
      (i.iterate sha1 it).2 = (i.serve sha1 it).2 := by
  have served := serve_tells sha1 sound it
  obtain ⟨same, ndp⟩ := foldl_renew served it.renewals
  refine ⟨served.foldl renew_candid it.renewals, fun e member => ?_, same⟩
  rw [iterate, ndp] at member
  exact serve_seen sha1 sound it e member

end Iterations

/-! ## Passes -/

/-- A sound interface whose engine has reported its view at an instant. -/
structure Settled (t : ℕ) (i : Interface) : Prop where
  sound : Sound i
  seen : Seen t i

namespace Settled

variable {t : ℕ} {i : Interface}

theorem new (t : ℕ) (ifid : String) (link : Link) : Settled t (Interface.new ifid link) where
  sound := ⟨(fun _ none => nomatch none), (fun _ none => nomatch none), (fun kept => nomatch kept)⟩
  seen := fun _ none => nomatch none

/-- Nothing but the clients and the provisional state matters. -/
theorem of_same {j : Interface} (settled : Settled t i) (dhcp : j.dhcp = i.dhcp) (ndp : j.ndp = i.ndp)
    (restart : j.restart = i.restart) : Settled t j := by
  refine ⟨⟨?_, ?_, ?_⟩, ?_⟩
  · rw [dhcp]
    exact settled.sound.clients
  · rw [ndp]
    exact settled.sound.engines
  · rw [dhcp, restart]
    exact settled.sound.provisional
  · rw [Seen, ndp]
    exact settled.seen

theorem stopDhcp (settled : Settled t i) : Settled t i.stopDhcp where
  sound := ⟨(fun _ none => nomatch none), settled.sound.engines, (fun kept => nomatch kept)⟩
  seen := settled.seen

theorem stopIpv6 (settled : Settled t i) : Settled t i.stopIpv6 where
  sound := ⟨settled.sound.clients, (fun _ none => nomatch none), settled.sound.provisional⟩
  seen := fun _ none => nomatch none

/-- Clients may be stopped or left as they are. -/
theorem ite {c : Prop} [Decidable c] {j : Interface} (stopped : Settled t j) (kept : Settled t i) :
    Settled t (if c then j else i) := by
  split_ifs
  · exact stopped
  · exact kept

theorem syncLink (settled : Settled t i) (link : Link) (outcome : Outcome) :
    Settled t (i.syncLink link outcome) := by
  have linked : Settled t { i with link, rejudge := false } := settled.of_same rfl rfl rfl
  have adopted : Settled t (i.adoptLink link) := linked.stopDhcp.stopIpv6.ite linked
  have judged : Settled t { i.adoptLink link with outcome } := adopted.of_same rfl rfl rfl
  exact adopted.ite (judged.stopDhcp.stopIpv6.ite judged)

/-- Of what the first actions of a client leave, only INIT-REBOOT keeps provisional state. -/
theorem startDhcp (settled : Settled t i) (env : Environment) (mac : Mac) (announceHostname : Bool) :
    Settled t (i.startDhcp env mac announceHostname) := by
  let client := Dhcp4.Client.new
    { chaddr := mac
      clientId := env.clientId
      hostname := if announceHostname then env.hostname else none
      seed := env.entropy4 ^^^ i.link.index.setWidth 64 } env.created
  have asked := Dhcp4.Client.start_asked client env.now env.previous
  have tells := perform_tells (i := { i.rememberRestart env.observed env.previous with
    dhcp := some (client.start env.now env.previous).1, lease := none })
    (by rintro _ ⟨⟩; exact asked.1.valid) settled.sound.engines (client.start env.now env.previous).2
  refine ⟨tells.1, fun e member => settled.seen e ?_⟩
  rw [Interface.startDhcp, (perform_frame _ _).2.1] at member
  exact member

theorem startDhcpWhereDue (settled : Settled t i) (env : Environment) :
    Settled t (i.startDhcpWhereDue env) := by
  obtain same | ⟨_, _, _, _, stopped⟩ | ⟨p, mac, _, _, _, started⟩ := startDhcpWhereDue_outcomes i env
  · rw [same]
    exact settled
  · rw [stopped]
    exact settled.stopDhcp
  · rw [started]
    exact settled.startDhcp env mac p.address.announceHostname

theorem startNdp (settled : Settled t i) (env : Environment) (secret : Bytes) :
    Settled t (i.startNdp env secret) := by
  refine ⟨⟨settled.sound.clients, ?_, settled.sound.provisional⟩, ?_⟩
  · intro e member
    obtain ⟨config, rfl⟩ := mem_startNdp member
    exact (Ndp.Engine.start_spec env.now).1.paced
  · intro e member
    obtain ⟨config, rfl⟩ := mem_startNdp member
    exact Ndp.Engine.started_view config env.now t

theorem startDhcp6WhereDue (settled : Settled t i) (env : Environment) :
    Settled t (i.startDhcp6WhereDue env) := by
  have without : Settled t { i with dhcp6 := none } := settled.of_same rfl rfl rfl
  have stopped : Settled t (if i.dhcp6.isSome && !(i.ndp.map fun e => e.wantsDhcp6).getD false then
      { i with dhcp6 := none } else i) := without.ite settled
  apply ite
  · exact stopped.of_same rfl rfl rfl
  · exact stopped

theorem startIpv6WhereDue (settled : Settled t i) (env : Environment) :
    Settled t (i.startIpv6WhereDue env) := by
  obtain ⟨j, before, after⟩ := startIpv6WhereDue_outcomes i env
  have stopped : Settled t j := by
    obtain rfl | rfl := before
    · exact settled
    · exact settled.stopIpv6
  obtain same | same | ⟨secret, same⟩ := after
  · rw [same]
    exact stopped
  · rw [same]
    exact stopped.startDhcp6WhereDue env
  · rw [same]
    exact (stopped.startNdp env secret).startDhcp6WhereDue env

/-- A pass keeps the clients sound and the engine's report current. -/
theorem pass (settled : Settled t i) (p : Pass) : Settled t (i.pass p) :=
  ((settled.syncLink p.link p.outcome).startDhcpWhereDue p.env).startIpv6WhereDue p.env

theorem passes (settled : Settled t i) (ps : List Pass) : Settled t (ps.foldl Interface.pass i) := by
  induction ps generalizing i with
  | nil => exact settled
  | cons p rest ih => exact ih (settled.pass p)

/-- A renewal is no reason to reconcile. -/
theorem renew (settled : Settled t i) (now : ℕ) :
    Settled t (i.renew now).1 ∧ Loop.reconciled (i.renew now).1 t = Loop.reconciled i t := by
  obtain ⟨sound, same⟩ := renew_candid now i settled.sound
  have seen : Seen t (i.renew now).1 := by
    rw [Seen, renew_ndp]
    exact settled.seen
  exact ⟨⟨sound, seen⟩, reconciled_congr seen settled.seen (same (renew_silent settled.sound now))⟩

theorem renewals (settled : Settled t i) (nows : List ℕ) :
    Settled t (nows.foldl (fun i now => (i.renew now).1) i) ∧
      Loop.reconciled (nows.foldl (fun i now => (i.renew now).1) i) t = Loop.reconciled i t := by
  induction nows generalizing i with
  | nil => exact ⟨settled, rfl⟩
  | cons now rest ih =>
    obtain ⟨first, same⟩ := settled.renew now
    obtain ⟨all, later⟩ := ih first
    exact ⟨all, later.trans same⟩

end Settled

end Netd.Model.Interface

/-! ## The loop -/

namespace Netd.Model.Loop

open Interface

variable (sha1 : Bytes → BitVec 160)

/-- What holds between turns: the interface is settled, and what it wants was applied. -/
structure Coherent (s : Loop) : Prop where
  settled : Settled s.last s.interface
  current : s.applied = reconciled s.interface s.last

theorem start_coherent (ifid : String) (link : Link) (now : ℕ) (passes : List Pass) :
    (start ifid link now passes).Coherent :=
  ⟨(Settled.new now ifid link).passes passes, rfl⟩

/-- An iteration in which nothing is reported leaves what the interface wants as it was. -/
theorem Coherent.silent {s : Loop} (coherent : s.Coherent) (it : Iteration)
    (silent : (s.interface.iterate sha1 it).2 = false) :
    reconciled (s.interface.iterate sha1 it).1 it.now = reconciled s.interface s.last := by
  obtain ⟨tells, seen, _⟩ := iterate_spec sha1 coherent.settled.sound it
  exact reconciled_congr seen coherent.settled.seen (tells.2 silent)

/-- A pass that was asked for makes up for whatever was to be applied. -/
theorem serveRequest_coherent {s : Loop} (settled : Settled s.last s.interface) (request : Request) :
    (s.serveRequest request).Coherent := by
  obtain ⟨renewed, same⟩ := (settled.passes request.passes).renewals request.renewals
  exact ⟨renewed, same.symm⟩

theorem foldl_serveRequest {s : Loop} (settled : Settled s.last s.interface) (requests : List Request) :
    Settled (requests.foldl serveRequest s).last (requests.foldl serveRequest s).interface ∧
      (s.Coherent → (requests.foldl serveRequest s).Coherent) := by
  induction requests generalizing s with
  | nil => exact ⟨settled, id⟩
  | cons request rest ih =>
    have coherent := serveRequest_coherent settled request
    obtain ⟨last, kept⟩ := ih coherent.settled
    exact ⟨last, fun _ => kept coherent⟩

theorem Coherent.turn {s : Loop} (coherent : s.Coherent) (t : Turn) : (s.turn sha1 t).Coherent := by
  obtain ⟨tells, seen, reports⟩ := iterate_spec sha1 coherent.settled.sound t.iteration
  have settled : Settled t.iteration.now (s.interface.iterate sha1 t.iteration).1 := ⟨tells.1, seen⟩
  obtain ⟨served, kept⟩ := foldl_serveRequest
    (s := { s with interface := (s.interface.iterate sha1 t.iteration).1, last := t.iteration.now })
    settled t.requests
  refine ⟨served.passes t.passes, ?_⟩
  rw [Loop.turn]
  dsimp only
  split_ifs with asked
  · rfl
  · simp only [Bool.or_eq_true, not_or, Bool.not_eq_true, Bool.not_eq_false'] at asked
    obtain ⟨⟨⟨quiet, _⟩, noPass⟩, _⟩ := asked
    have silent := coherent.silent sha1 t.iteration (reports.trans quiet)
    have none : t.passes = [] := by simpa using noPass
    rw [none]
    exact (kept ⟨settled, coherent.current.trans silent.symm⟩).current

/-- After any turns, an iteration in which no perform function returned true leaves what the
interface wants, of the kernel and of name resolution, as it stood; and what it wants has been
applied and published. -/
theorem no_missed_reconcile (ifid : String) (link : Link) (now : ℕ) (passes : List Pass)
    (turns : List Turn) :
    let s := (machine sha1).run (start ifid link now passes) turns
    (∀ it : Iteration, (s.interface.iterate sha1 it).2 = false →
      (s.interface.iterate sha1 it).1.desired it.now = s.interface.desired s.last ∧
        (s.interface.iterate sha1 it).1.dns it.now = s.interface.dns s.last) ∧
      s.applied = (s.interface.desired s.last, s.interface.dns s.last) := by
  intro s
  have coherent : s.Coherent := (machine sha1).run_invariant
    (fun _ t before => before.turn sha1 t) (start_coherent ifid link now passes) turns
  refine ⟨fun it silent => ?_, coherent.current⟩
  exact Prod.mk.inj (coherent.silent sha1 it silent)

end Netd.Model.Loop
