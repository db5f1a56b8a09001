import Netd.Proofs.Dhcp4.LeaseTrace
import Netd.Proofs.EventLoop.Passes
import Netd.Proofs.EventLoop.Standing

/-! # Clients live and die with what they were started for

Clients are stopped in three places: where a link loses its carrier, where the interface layer says
something else, and where a client is found that is no longer due. The start functions skip an
interface without a profile, so between them the places must cover every order in which links and
verdicts can change. What holds after every step is stated of an interface together with the
profile in force when each of its running clients was started.
-/

namespace Netd.Model.Ndp.Engine

theorem expire_dhcp6Wanted (e : Engine) (now : ℕ) : (e.expire now).dhcp6Wanted = e.dhcp6Wanted := by
  obtain ⟨rng, prefixes, frame⟩ := e.expire_frame now
  rw [frame, dropEnded]
  dsimp only
  split_ifs <;> rfl

theorem solicitDue_dhcp6Wanted (e : Engine) (now : ℕ) :
    (e.solicitDue now).1.dhcp6Wanted = e.dhcp6Wanted := by
  rw [solicitDue]
  split
  · split_ifs <;> rfl
  · rfl

theorem emitIfChanged_dhcp6Wanted (e : Engine) (now : ℕ) (actions : List Action) :
    (e.emitIfChanged now actions).1.dhcp6Wanted = e.dhcp6Wanted := by
  rw [emitIfChanged_fst]

theorem tick_dhcp6Wanted (e : Engine) (now : ℕ) : (e.tick now).1.dhcp6Wanted = e.dhcp6Wanted := by
  rw [tick, emitIfChanged_dhcp6Wanted, solicitDue_dhcp6Wanted, expire_dhcp6Wanted]

/-- Routers that asked for DHCPv6 do not take that back. -/
theorem receive_dhcp6Wanted (sha1 : Bytes → BitVec 160) {e : Engine} (now : ℕ) (source : Ipv6Addr)
    (body : Bytes) (wanted : e.dhcp6Wanted = true) : (e.receive sha1 now source body).1.dhcp6Wanted = true := by
  rw [receive]
  cases RouterAdvert.decode body with
  | none => exact wanted
  | some ra =>
    rw [emitIfChanged_dhcp6Wanted, expire_dhcp6Wanted]
    obtain ⟨rng, prefixes, frame⟩ :=
      foldl_receivePrefix_frame sha1 now ra.prefixes (e.receiveRouter now source ra)
    rw [advertised, frame, receiveRouter]
    split_ifs <;> simp [wanted]

end Netd.Model.Ndp.Engine

namespace Netd.Model.Interface

/-! ## What was in force when a client was started -/

/-- The profile in force when each running client was started. -/
structure Began where
  dhcp : Option Profile
  ndp : Option Profile
  dhcp6 : Option Profile

/-- A client that was not there before was started now, under the profile now in force. -/
def since {α : Type*} (before after : Option α) (inForce was : Option Profile) : Option Profile :=
  match before, after with
  | _, none => none
  | some _, some _ => was
  | none, some _ => inForce

/-- An interface with a record of its running clients. -/
structure Tracked where
  interface : Interface
  began : Began

namespace Tracked

/-- One stage of a pass, or one event. No stage stops a client and starts another in its place. -/
def stage (t : Tracked) (after : Interface) : Tracked where
  interface := after
  began :=
    { dhcp := since t.interface.dhcp after.dhcp after.profile t.began.dhcp
      ndp := since t.interface.ndp after.ndp after.profile t.began.ndp
      dhcp6 := since t.interface.dhcp6 after.dhcp6 after.profile t.began.dhcp6 }

def new (ifid : String) (link : Link) : Tracked := ⟨Interface.new ifid link, ⟨none, none, none⟩⟩

def syncLink (t : Tracked) (link : Link) (outcome : Outcome) : Tracked :=
  t.stage (t.interface.syncLink link outcome)

def startDhcpWhereDue (t : Tracked) (env : Environment) : Tracked :=
  t.stage (t.interface.startDhcpWhereDue env)

def startIpv6WhereDue (t : Tracked) (env : Environment) : Tracked :=
  t.stage (t.interface.startIpv6WhereDue env)

def pass (t : Tracked) (p : Pass) : Tracked :=
  ((t.syncLink p.link p.outcome).startDhcpWhereDue p.env).startIpv6WhereDue p.env

end Tracked

/-- A slot of the table with a record of the running clients. -/
def Tracked.slots (sha1 : Bytes → BitVec 160) : Transducer (Option Tracked) Step Unit where
  step slot
    | .sight s => (s.link.map fun link => (slot.getD (.new s.ifid link)).pass ⟨link, s.outcome, s.env⟩, ())
    | .event event => (slot.map fun t => t.stage (t.interface.handle sha1 event).1, ())

/-- The record is kept beside the table and does not change it. -/
theorem Tracked.run_interface (sha1 : Bytes → BitVec 160) (slot : Option Tracked) (steps : List Step) :
    ((Tracked.slots sha1).run slot steps).map Tracked.interface =
      (Interface.slots sha1).run (slot.map Tracked.interface) steps := by
  induction steps generalizing slot with
  | nil => rfl
  | cons step rest ih =>
    refine (ih _).trans (congrArg (fun slot => (Interface.slots sha1).run slot rest) ?_)
    cases step with
    | sight s =>
      change (s.link.map _).map Tracked.interface = s.link.map _
      rw [Option.map_map]
      cases slot <;> rfl
    | event event => cases slot <;> rfl

/-! ## What performing actions leaves alone -/

/-- The part of an interface that no action touches. -/
def fixed (i : Interface) : Link × Outcome × Option Dhcp4.Client × Option Ndp.Engine × Option Dhcp6.Client :=
  (i.link, i.outcome, i.dhcp, i.ndp, i.dhcp6)

theorem ActionOnly.fixed {i j : Interface} (only : ActionOnly i j) : j.fixed = i.fixed := by
  obtain ⟨_, _, _, _, rfl⟩ := only
  rfl

theorem finishRestart_fixed (i : Interface) :
    i.finishRestart.1.fixed = i.fixed ∧ i.finishRestart.1.lease = i.lease := by
  rw [finishRestart]
  split_ifs <;> exact ⟨rfl, rfl⟩

/-- The lease is kept on expiry. -/
def keeps (i : Interface) : Bool :=
  (i.profile.map fun p => decide (p.address.onExpiry = .keep)).getD false

theorem profile_of_fixed {i j : Interface} (same : j.fixed = i.fixed) : j.profile = i.profile := by
  simp only [fixed, Prod.mk.injEq] at same
  rw [profile, profile, same.1, same.2.1]

theorem keeps_of_fixed {i j : Interface} (same : j.fixed = i.fixed) : j.keeps = i.keeps := by
  rw [keeps, keeps, profile_of_fixed same]

/-- What an action makes of the interface's copy of the lease. -/
def copy (keep : Bool) (known : Option Dhcp4.Lease) : Dhcp4.Action → Option Dhcp4.Lease
  | .bound lease => some lease
  | .lost => if keep then known else none
  | .send .. | .noOffer => known

theorem performAction_lease (r : Interface × Bool) (action : Dhcp4.Action) :
    (performAction r action).1.lease = copy r.1.keeps r.1.lease action := by
  obtain ⟨i, changed⟩ := r
  cases action with
  | send message destination => rfl
  | bound lease => rfl
  | noOffer =>
    simp only [performAction, copy]
    split_ifs <;> rfl
  | lost =>
    change (if i.keeps then (i, changed) else ({ i with lease := none }, true)).1.lease =
      if i.keeps then i.lease else none
    split_ifs <;> rfl

/-- What performing actions does to an interface besides its fallback address. -/
theorem perform_spec (i : Interface) (actions : List Dhcp4.Action) :
    (i.perform actions).1.fixed = i.fixed ∧
      (i.perform actions).1.lease = actions.foldl (copy i.keeps) i.lease := by
  have every (r : Interface × Bool) :
      (actions.foldl performAction r).1.lease = actions.foldl (copy r.1.keeps) r.1.lease := by
    induction actions generalizing r with
    | nil => rfl
    | cons action rest ih =>
      have first := (performAction_only r action).fixed
      rw [List.foldl_cons, ih, keeps_of_fixed first, performAction_lease, List.foldl_cons]
  obtain ⟨fixed, lease⟩ := finishRestart_fixed i
  refine ⟨(foldl_performAction_only i.finishRestart actions).fixed.trans fixed, (every i.finishRestart).trans ?_⟩
  rw [keeps_of_fixed fixed, lease]

/-! ## The copy of the lease -/

/-- The interface's copy of the client's lease: the same, except that one that was lost is kept
where the profile says so. -/
def Mirrors (keep : Bool) (known held : Option Dhcp4.Lease) : Prop :=
  known = held ∨ (keep = true ∧ held = none)

theorem Mirrors.foldl {keep : Bool} {known held : Option Dhcp4.Lease} (mirrors : Mirrors keep known held)
    (actions : List Dhcp4.Action) :
    Mirrors keep (actions.foldl (copy keep) known) (actions.foldl Dhcp4.Client.record held) := by
  induction actions generalizing known held with
  | nil => exact mirrors
  | cons action rest ih =>
    apply ih
    cases action with
    | send message destination => exact mirrors
    | noOffer => exact mirrors
    | bound lease => exact .inl rfl
    | lost =>
      cases keep with
      | true => exact .inr ⟨rfl, rfl⟩
      | false => exact .inl rfl

/-! ## The invariant -/

/-- The interface joins a profile on a link that is up with a carrier. -/
structure Stands (i : Interface) (p : Profile) : Prop where
  joined : i.outcome = .join p
  wired : i.link.loopback = false
  up : i.link.up = true
  carrier : i.link.carrier = true

/-- What every reachable interface has, with a record of its running clients. -/
structure Governed (t : Tracked) : Prop where
  valid : ∀ c ∈ t.interface.dhcp, c.Valid
  dhcp : t.interface.dhcp.isSome = true →
    ∃ p, Stands t.interface p ∧ p.address.dhcp4 = true ∧ t.began.dhcp = some p
  ndp : t.interface.ndp.isSome = true →
    ∃ p, Stands t.interface p ∧ p.address.autoconf6 = true ∧ t.began.ndp = some p
  dhcp6 : t.interface.dhcp6.isSome = true →
    ∃ p, Stands t.interface p ∧ t.began.dhcp6 = some p ∧ ∃ e ∈ t.interface.ndp, e.wantsDhcp6 = true
  held : t.interface.lease.isSome = true ∨ t.interface.restart.isSome = true ∨
    t.interface.linkLocal.isSome = true → t.interface.dhcp.isSome = true
  mirrored : ∀ c ∈ t.interface.dhcp, Mirrors t.interface.keeps t.interface.lease c.lease

theorem Stands.profile {i : Interface} {p : Profile} (stands : Stands i p) : i.profile = some p := by
  rw [Interface.profile, stands.wired, stands.joined]
  rfl

theorem Stands.congr {i j : Interface} {p : Profile} (stands : Stands i p) (link : j.link = i.link)
    (outcome : j.outcome = i.outcome) : Stands j p where
  joined := outcome.trans stands.joined
  wired := link ▸ stands.wired
  up := link ▸ stands.up
  carrier := link ▸ stands.carrier

/-- A client that is still there was started when it was. -/
theorem since_of_isSome {α : Type*} {before after : Option α} (inForce was : Option Profile)
    (kept : before.isSome = true) (there : after.isSome = true) : since before after inForce was = was := by
  obtain ⟨old, rfl⟩ := Option.isSome_iff_exists.mp kept
  obtain ⟨new, rfl⟩ := Option.isSome_iff_exists.mp there
  rfl

theorem since_of_isNone {α : Type*} {after : Option α} (inForce was : Option Profile)
    (there : after.isSome = true) : since none after inForce was = inForce := by
  obtain ⟨new, rfl⟩ := Option.isSome_iff_exists.mp there
  rfl

/-- A step that starts and stops nothing. -/
theorem Governed.kept {t : Tracked} {after : Interface} (governed : Governed t)
    (standing : ∀ p, Stands t.interface p → Stands after p)
    (dhcp : after.dhcp.isSome = t.interface.dhcp.isSome) (ndp : after.ndp.isSome = t.interface.ndp.isSome)
    (dhcp6 : after.dhcp6.isSome = t.interface.dhcp6.isSome) (valid : ∀ c ∈ after.dhcp, c.Valid)
    (wants : (∃ e ∈ t.interface.ndp, e.wantsDhcp6 = true) → ∃ e ∈ after.ndp, e.wantsDhcp6 = true)
    (held : after.lease.isSome = true ∨ after.restart.isSome = true ∨ after.linkLocal.isSome = true →
      after.dhcp.isSome = true)
    (mirrored : ∀ c ∈ after.dhcp, Mirrors after.keeps after.lease c.lease) : Governed (t.stage after) where
  valid := valid
  dhcp there := by
    obtain ⟨p, stands, address, began⟩ := governed.dhcp (dhcp ▸ there)
    exact ⟨p, standing p stands, address, (since_of_isSome _ _ (dhcp ▸ there) there).trans began⟩
  ndp there := by
    obtain ⟨p, stands, address, began⟩ := governed.ndp (ndp ▸ there)
    exact ⟨p, standing p stands, address, (since_of_isSome _ _ (ndp ▸ there) there).trans began⟩
  dhcp6 there := by
    obtain ⟨p, stands, began, wanted⟩ := governed.dhcp6 (dhcp6 ▸ there)
    exact ⟨p, standing p stands, (since_of_isSome _ _ (dhcp6 ▸ there) there).trans began, wants wanted⟩
  held := held
  mirrored := mirrored

theorem Governed.unchanged {t : Tracked} (governed : Governed t) : Governed (t.stage t.interface) :=
  governed.kept (fun _ stands => stands) rfl rfl rfl governed.valid id governed.held governed.mirrored

/-! ## Events -/

/-- A client that moved, with its actions performed. -/
theorem Governed.moved {t : Tracked} {c after : Dhcp4.Client} {now : ℕ} {actions : List Dhcp4.Action}
    (governed : Governed t) (client : t.interface.dhcp = some c) (move : c.Move now after actions) :
    Governed (t.stage (perform { t.interface with dhcp := some after } actions).1) := by
  obtain ⟨fixed, lease⟩ := perform_spec { t.interface with dhcp := some after } actions
  have keeps := keeps_of_fixed fixed
  simp only [Interface.fixed, Prod.mk.injEq] at fixed
  obtain ⟨link, outcome, dhcp, ndp, dhcp6⟩ := fixed
  refine governed.kept (fun _ stands => stands.congr link outcome) ?_ (congrArg _ ndp) (congrArg _ dhcp6) ?_ ?_ ?_ ?_
  · rw [dhcp, client]
    rfl
  · rw [dhcp]
    rintro _ ⟨⟩
    exact move.valid (governed.valid c client)
  · rw [ndp]
    exact id
  · intro _
    rw [dhcp]
    rfl
  · rw [dhcp, keeps, lease]
    rintro _ ⟨⟩
    rw [move.lease_eq]
    exact (governed.mirrored c client).foldl actions

theorem receiveMessage_governed {t : Tracked} (governed : Governed t) (now : ℕ) (message : Dhcp4.Message) :
    Governed (t.stage (t.interface.receiveMessage now message).1) := by
  rw [receiveMessage]
  cases client : t.interface.dhcp with
  | none => exact governed.unchanged
  | some c => exact governed.moved client (Dhcp4.Client.receive_move now message (governed.valid c client))

/-- Without a client there is nothing to perform, and nothing to end. -/
theorem tickDhcp_governed {t : Tracked} (governed : Governed t) (now : ℕ) :
    Governed (t.stage (t.interface.tickDhcp now).1) := by
  rw [tickDhcp]
  cases client : t.interface.dhcp with
  | none =>
    have none : t.interface.restart = none := by
      by_contra kept
      have there := governed.held (.inr (.inl (Option.isSome_iff_ne_none.mpr kept)))
      rw [client] at there
      contradiction
    have same : (t.interface.perform []).1 = t.interface := by
      rw [perform, List.foldl_nil, finishRestart]
      split_ifs
      · rw [← none]
      · rfl
    rw [same]
    exact governed.unchanged
  | some c => exact governed.moved client (Dhcp4.Client.tick_move now (governed.valid c client))

theorem renew_governed {t : Tracked} (governed : Governed t) (now : ℕ) :
    Governed (t.stage (t.interface.renew now).1) := by
  rw [renew]
  cases client : t.interface.dhcp with
  | none => exact governed.unchanged
  | some c => exact governed.moved client (Dhcp4.Client.renewNow_move now (governed.valid c client))

/-- An engine that was told something still wants what it wanted. -/
theorem Governed.stepped {t : Tracked} {e after : Ndp.Engine} (governed : Governed t)
    (engine : t.interface.ndp = some e) (wants : e.wantsDhcp6 = true → after.wantsDhcp6 = true) :
    Governed (t.stage { t.interface with ndp := some after }) := by
  refine governed.kept (fun _ stands => stands.congr rfl rfl) rfl ?_ rfl governed.valid ?_ governed.held governed.mirrored
  · rw [engine]
    rfl
  · rw [engine]
    rintro ⟨_, ⟨⟩, wanted⟩
    exact ⟨after, rfl, wants wanted⟩

theorem receiveAdvert_governed (sha1 : Bytes → BitVec 160) {t : Tracked} (governed : Governed t) (now : ℕ)
    (message : Ipv6Addr × U8 × Bytes) : Governed (t.stage (t.interface.receiveAdvert sha1 now message).1) := by
  rw [receiveAdvert]
  split_ifs
  · exact governed.unchanged
  · cases engine : t.interface.ndp with
    | none => exact governed.unchanged
    | some e => exact governed.stepped engine (Ndp.Engine.receive_dhcp6Wanted sha1 now message.1 message.2.2)

theorem tickNdp_governed {t : Tracked} (governed : Governed t) (now : ℕ) :
    Governed (t.stage (t.interface.tickNdp now).1) := by
  rw [tickNdp]
  cases engine : t.interface.ndp with
  | none => exact governed.unchanged
  | some e => exact governed.stepped engine ((Ndp.Engine.tick_dhcp6Wanted e now).trans ·)

/-- A DHCPv6 client that moved. -/
theorem Governed.informed {t : Tracked} {c after : Dhcp6.Client} (governed : Governed t)
    (client : t.interface.dhcp6 = some c) : Governed (t.stage { t.interface with dhcp6 := some after }) := by
  refine governed.kept (fun _ stands => stands.congr rfl rfl) rfl rfl ?_ governed.valid id governed.held governed.mirrored
  rw [client]
  rfl

theorem receiveDatagram_governed {t : Tracked} (governed : Governed t) (now : ℕ) (datagram : Bytes) :
    Governed (t.stage (t.interface.receiveDatagram now datagram).1) := by
  rw [receiveDatagram]
  cases client : t.interface.dhcp6 with
  | none => exact governed.unchanged
  | some c => exact governed.informed client

theorem tickDhcp6_governed {t : Tracked} (governed : Governed t) (now : ℕ) :
    Governed (t.stage (t.interface.tickDhcp6 now).1) := by
  rw [tickDhcp6]
  cases client : t.interface.dhcp6 with
  | none => exact governed.unchanged
  | some c => exact governed.informed client

theorem handle_governed (sha1 : Bytes → BitVec 160) {t : Tracked} (governed : Governed t) (event : Event) :
    Governed (t.stage (t.interface.handle sha1 event).1) := by
  cases event with
  | message now message => exact receiveMessage_governed governed now message
  | advert now message => exact receiveAdvert_governed sha1 governed now message
  | datagram now datagram => exact receiveDatagram_governed governed now datagram
  | tickDhcp now => exact tickDhcp_governed governed now
  | tickNdp now => exact tickNdp_governed governed now
  | tickDhcp6 now => exact tickDhcp6_governed governed now
  | renew now => exact renew_governed governed now

/-! ## Passes -/

/-- An interface without clients, and without what clients leave. -/
structure Stopped (i : Interface) : Prop where
  dhcp : i.dhcp = none
  ndp : i.ndp = none
  dhcp6 : i.dhcp6 = none
  lease : i.lease = none
  restart : i.restart = none
  linkLocal : i.linkLocal = none

theorem stop_stopped (i : Interface) : Stopped i.stopDhcp.stopIpv6 := ⟨rfl, rfl, rfl, rfl, rfl, rfl⟩

theorem Stopped.governed {t : Tracked} (stopped : Stopped t.interface) : Governed t where
  valid := by simp [stopped.dhcp]
  dhcp := by simp [stopped.dhcp]
  ndp := by simp [stopped.ndp]
  dhcp6 := by simp [stopped.dhcp6]
  held := by simp [stopped.lease, stopped.restart, stopped.linkLocal]
  mirrored := by simp [stopped.dhcp]

theorem new_governed (ifid : String) (link : Link) : Governed (Tracked.new ifid link) :=
  Stopped.governed ⟨rfl, rfl, rfl, rfl, rfl, rfl⟩

theorem adoptLink_cases (i : Interface) (link : Link) : Stopped (i.adoptLink link) ∨
    (i.adoptLink link = { i with link, rejudge := false } ∧
      (i.link.carrier = true → i.link.up = true → link.carrier = true ∧ link.up = true)) := by
  rw [adoptLink]
  split_ifs with lost
  · exact .inl (stop_stopped _)
  · refine .inr ⟨rfl, fun carrier up => ?_⟩
    simpa [carrier, up] using lost

theorem adoptOutcome_cases (i : Interface) (outcome : Outcome) :
    Stopped (i.adoptOutcome outcome) ∨ i.adoptOutcome outcome = i := by
  rw [adoptOutcome]
  split_ifs with changed
  · exact .inl (stop_stopped _)
  · have same : outcome = i.outcome := by simpa using changed
    rw [same]
    exact .inr rfl

theorem Stopped.adoptOutcome {i : Interface} (stopped : Stopped i) (outcome : Outcome) :
    Stopped (i.adoptOutcome outcome) := by
  rcases adoptOutcome_cases i outcome with again | same
  · exact again
  · rw [same]
    exact stopped

/-- Clients are stopped, or whoever stood on the link before stands on it still. -/
theorem syncLink_cases (i : Interface) (link : Link) (outcome : Outcome) :
    Stopped (i.syncLink link outcome) ∨ (i.syncLink link outcome = { i with link, rejudge := false } ∧
      (i.link.carrier = true → i.link.up = true → link.carrier = true ∧ link.up = true)) := by
  have adopted := adoptLink_cases i link
  rw [syncLink]
  split_ifs
  · exact adopted
  · rcases adopted with stopped | ⟨same, carried⟩
    · exact .inl (stopped.adoptOutcome outcome)
    · apply (adoptOutcome_cases (i.adoptLink link) outcome).imp id
      intro kept
      rw [kept]
      exact ⟨same, carried⟩

theorem syncLink_governed {t : Tracked} (governed : Governed t) {link : Link}
    (loopback : link.loopback = t.interface.link.loopback) (outcome : Outcome) :
    Governed (t.syncLink link outcome) := by
  rw [Tracked.syncLink]
  rcases syncLink_cases t.interface link outcome with stopped | ⟨same, carried⟩
  · exact Stopped.governed stopped
  · rw [same]
    have keeps : keeps { t.interface with link, rejudge := false } = t.interface.keeps := by
      simp only [Interface.keeps, profile, loopback]
    refine governed.kept (fun p stands => ?_) rfl rfl rfl governed.valid id governed.held ?_
    · obtain ⟨carrier, up⟩ := carried stands.carrier stands.up
      exact ⟨stands.joined, loopback.trans stands.wired, up, carrier⟩
    · rw [keeps]
      exact governed.mirrored

/-! ## Starting -/

theorem Stands.managed {i : Interface} {p : Profile} (stands : Stands i p) : i.managed = true := by
  rw [Interface.managed, stands.joined, stands.wired]
  rfl

/-- An interface with a profile that manages it joins it. -/
theorem stands_of_profile {i : Interface} {p : Profile} (profile : i.profile = some p)
    (up : i.link.up = true) (carrier : i.link.carrier = true) : Stands i p := by
  rw [Interface.profile] at profile
  split_ifs at profile with loopback
  cases outcome : i.outcome with
  | join q =>
    rw [outcome] at profile
    cases profile
    exact ⟨outcome, Bool.eq_false_of_not_eq_true loopback, up, carrier⟩
  | ignore =>
    rw [outcome] at profile
    contradiction
  | down =>
    rw [outcome] at profile
    contradiction

/-- A client that is there is due, so the first of the two start functions only ever starts. -/
theorem startDhcpWhereDue_cases {t : Tracked} (governed : Governed t) (env : Environment) :
    t.interface.startDhcpWhereDue env = t.interface ∨ ∃ p mac, Stands t.interface p ∧
      p.address.dhcp4 = true ∧ t.interface.dhcp = none ∧
      t.interface.startDhcpWhereDue env = t.interface.startDhcp env mac p.address.announceHostname := by
  obtain same | ⟨p, profile, due, running, -⟩ | ⟨p, mac, profile, due, none, started⟩ :=
    startDhcpWhereDue_outcomes t.interface env
  · exact .inl same
  · obtain ⟨q, stands, dhcp4, -⟩ := governed.dhcp running
    obtain rfl : q = p := Option.some.inj (stands.profile.symm.trans profile)
    simp [dhcpDue, stands.managed, dhcp4, stands.up, stands.carrier] at due
  · simp only [dhcpDue, Bool.and_eq_true] at due
    obtain ⟨⟨-, dhcp4⟩, up, carrier⟩ := due
    exact .inr ⟨p, mac, stands_of_profile profile up carrier, dhcp4, none, started⟩

/-- A client that was just started holds nothing, and nothing else has changed. -/
theorem startDhcp_spec (i : Interface) (env : Environment) (mac : Mac) (announceHostname : Bool) :
    ∃ c, (i.startDhcp env mac announceHostname).fixed = (i.link, i.outcome, some c, i.ndp, i.dhcp6) ∧
      (i.startDhcp env mac announceHostname).lease = none ∧ c.Valid ∧ c.lease = none := by
  let client := Dhcp4.Client.new
    { chaddr := mac
      clientId := env.clientId
      hostname := if announceHostname then env.hostname else none
      seed := env.entropy4 ^^^ i.link.index.setWidth 64 } env.created
  obtain ⟨acquiring, message, sent⟩ := Dhcp4.Client.start_asked client env.now env.previous
  obtain ⟨fixed, lease⟩ := perform_spec { i.rememberRestart env.observed env.previous with
    dhcp := some (client.start env.now env.previous).1, lease := none }
    (client.start env.now env.previous).2
  refine ⟨(client.start env.now env.previous).1, fixed, lease.trans ?_, acquiring.valid, acquiring.lease_none⟩
  rw [sent]
  rfl

theorem startDhcp_governed {t : Tracked} {p : Profile} (governed : Governed t) (stands : Stands t.interface p)
    (dhcp4 : p.address.dhcp4 = true) (none : t.interface.dhcp = none) (env : Environment) (mac : Mac)
    (announceHostname : Bool) : Governed (t.stage (t.interface.startDhcp env mac announceHostname)) := by
  obtain ⟨c, fixed, lease, valid, unheld⟩ := startDhcp_spec t.interface env mac announceHostname
  generalize t.interface.startDhcp env mac announceHostname = after at fixed lease
  simp only [Interface.fixed, Prod.mk.injEq] at fixed
  obtain ⟨link, outcome, dhcp, ndp, dhcp6⟩ := fixed
  have standing (q : Profile) (was : Stands t.interface q) : Stands after q := was.congr link outcome
  have there : after.dhcp.isSome = true := by rw [dhcp]; rfl
  refine ⟨?_, fun _ => ⟨p, standing p stands, dhcp4, ?_⟩, fun engine => ?_, fun client => ?_,
    fun _ => there, ?_⟩
  · change ∀ c ∈ after.dhcp, c.Valid
    rw [dhcp]
    rintro _ ⟨⟩
    exact valid
  · change since t.interface.dhcp after.dhcp after.profile _ = some p
    rw [none, since_of_isNone _ _ there, (standing p stands).profile]
  · change after.ndp.isSome = true at engine
    obtain ⟨q, was, autoconf6, began⟩ := governed.ndp (ndp ▸ engine)
    exact ⟨q, standing q was, autoconf6, (since_of_isSome _ _ (ndp ▸ engine) engine).trans began⟩
  · change after.dhcp6.isSome = true at client
    obtain ⟨q, was, began, wanted⟩ := governed.dhcp6 (dhcp6 ▸ client)
    exact ⟨q, standing q was, (since_of_isSome _ _ (dhcp6 ▸ client) client).trans began, ndp ▸ wanted⟩
  · change ∀ c ∈ after.dhcp, Mirrors after.keeps after.lease c.lease
    rw [dhcp, lease]
    rintro _ ⟨⟩
    exact .inl unheld.symm

theorem startDhcpWhereDue_governed {t : Tracked} (governed : Governed t) (env : Environment) :
    Governed (t.startDhcpWhereDue env) := by
  rw [Tracked.startDhcpWhereDue]
  rcases startDhcpWhereDue_cases governed env with same | ⟨p, mac, stands, dhcp4, none, started⟩
  · rw [same]
    exact governed.unchanged
  · rw [started]
    exact startDhcp_governed governed stands dhcp4 none env mac _

/-- DHCPv6 is only ever started: a client that is there is still wanted. -/
theorem startDhcp6WhereDue_cases {t : Tracked} (governed : Governed t) (env : Environment) :
    t.interface.startDhcp6WhereDue env = t.interface ∨
      ((∃ e ∈ t.interface.ndp, e.wantsDhcp6 = true) ∧ t.interface.dhcp6 = none ∧
        ∃ c, t.interface.startDhcp6WhereDue env = { t.interface with dhcp6 := some c }) := by
  rw [startDhcp6WhereDue]
  dsimp only
  have wanted : (t.interface.dhcp6.isSome &&
      !(t.interface.ndp.map fun e => e.wantsDhcp6).getD false) = false := by
    cases there : t.interface.dhcp6.isSome with
    | false => rfl
    | true =>
      obtain ⟨_, _, _, e, engine, wants⟩ := governed.dhcp6 there
      rw [Option.mem_def.mp engine]
      simp [wants]
  simp only [wanted, Bool.false_eq_true, ↓reduceIte]
  split_ifs with start
  · simp only [Bool.and_eq_true, Option.isNone_iff_eq_none] at start
    refine .inr ⟨?_, start.1.1.1.2, _, rfl⟩
    have wants := start.1.1.1.1
    cases engine : t.interface.ndp with
    | none =>
      rw [engine] at wants
      contradiction
    | some e =>
      rw [engine] at wants
      exact ⟨e, rfl, wants⟩
  · exact .inl rfl

theorem startDhcp6WhereDue_governed {t : Tracked} (governed : Governed t) (env : Environment) :
    Governed (t.stage (t.interface.startDhcp6WhereDue env)) := by
  rcases startDhcp6WhereDue_cases governed env with same | ⟨⟨e, engine, wants⟩, none, c, started⟩
  · rw [same]
    exact governed.unchanged
  · rw [started]
    have unchanged := governed.unchanged
    obtain ⟨p, stands, _, _⟩ := governed.ndp (Option.isSome_iff_exists.mpr ⟨e, engine⟩)
    have stands' : Stands { t.interface with dhcp6 := some c } p := stands.congr rfl rfl
    refine ⟨governed.valid, fun there => ?_, fun there => ?_, fun _ => ⟨p, stands', ?_, e, engine, wants⟩,
      governed.held, governed.mirrored⟩
    · obtain ⟨q, was, dhcp4, began⟩ := unchanged.dhcp there
      exact ⟨q, was.congr rfl rfl, dhcp4, began⟩
    · obtain ⟨q, was, autoconf6, began⟩ := unchanged.ndp there
      exact ⟨q, was.congr rfl rfl, autoconf6, began⟩
    · change since t.interface.dhcp6 (some c) _ _ = some p
      rw [none]
      exact stands'.profile

theorem stopIpv6_governed {t : Tracked} (governed : Governed t) : Governed (t.stage t.interface.stopIpv6) where
  valid := governed.valid
  dhcp there := by
    obtain ⟨p, stands, dhcp4, began⟩ := governed.unchanged.dhcp there
    exact ⟨p, stands.congr rfl rfl, dhcp4, began⟩
  ndp there := nomatch there
  dhcp6 there := nomatch there
  held := governed.held
  mirrored := governed.mirrored

/-- Without an engine there is nothing to ask DHCPv6 for. -/
theorem startDhcp6WhereDue_of_unwanted {i : Interface} (unwanted : ∀ e ∈ i.ndp, e.wantsDhcp6 = false)
    (none : i.dhcp6 = none) (env : Environment) : i.startDhcp6WhereDue env = i := by
  have silent : (i.ndp.map fun e => e.wantsDhcp6).getD false = false := by
    cases engine : i.ndp with
    | none => rfl
    | some e => exact unwanted e engine
  simp [startDhcp6WhereDue, silent, none]

theorem startNdp_governed {t : Tracked} {p : Profile} (governed : Governed t) (stands : Stands t.interface p)
    (autoconf6 : p.address.autoconf6 = true) (none : t.interface.ndp = none) (env : Environment)
    (secret : Bytes) : Governed (t.stage (t.interface.startNdp env secret)) := by
  have idle : t.interface.dhcp6 = Option.none := by
    by_contra there
    obtain ⟨_, _, _, e, engine, _⟩ := governed.dhcp6 (Option.isSome_iff_ne_none.mpr there)
    rw [none] at engine
    contradiction
  have stands' : Stands (t.interface.startNdp env secret) p := stands.congr rfl rfl
  refine ⟨governed.valid, fun there => ?_, fun _ => ⟨p, stands', autoconf6, ?_⟩, fun there => ?_,
    governed.held, governed.mirrored⟩
  · obtain ⟨q, was, dhcp4, began⟩ := governed.unchanged.dhcp there
    exact ⟨q, was.congr rfl rfl, dhcp4, began⟩
  · change since t.interface.ndp (t.interface.startNdp env secret).ndp _ _ = some p
    rw [none, since_of_isNone _ _ rfl, stands'.profile]
  · change t.interface.dhcp6.isSome = true at there
    rw [idle] at there
    contradiction

theorem startNdp_unwanted (i : Interface) (env : Environment) (secret : Bytes) :
    ∀ e ∈ (i.startNdp env secret).ndp, e.wantsDhcp6 = false := by
  intro e member
  obtain ⟨config, rfl⟩ := mem_startNdp member
  exact Ndp.Engine.tick_dhcp6Wanted _ env.now

/-- The engine stops with the link-local address it solicits from, starts with it, or stays. -/
theorem startIpv6WhereDue_cases {t : Tracked} (governed : Governed t) (env : Environment) :
    t.interface.startIpv6WhereDue env = t.interface.stopIpv6 ∨
      (t.interface.startIpv6WhereDue env = t.interface ∧ t.interface.ndp = none) ∨
      (∃ p secret, Stands t.interface p ∧ p.address.autoconf6 = true ∧ t.interface.ndp = none ∧
        (linkLocalOf env.observed t.interface.link.index).isSome = true ∧
        t.interface.startIpv6WhereDue env = t.interface.startNdp env secret) ∨
      ((linkLocalOf env.observed t.interface.link.index).isSome = true ∧
        t.interface.startIpv6WhereDue env = t.interface.startDhcp6WhereDue env) := by
  have idle (none : t.interface.ndp = none) : t.interface.dhcp6 = Option.none := by
    by_contra there
    obtain ⟨_, _, _, e, engine, _⟩ := governed.dhcp6 (Option.isSome_iff_ne_none.mpr there)
    rw [none] at engine
    contradiction
  rw [startIpv6WhereDue]
  cases profile : t.interface.profile with
  | none =>
    refine .inr (.inl ⟨rfl, ?_⟩)
    by_contra there
    obtain ⟨p, stands, _⟩ := governed.ndp (Option.isSome_iff_ne_none.mpr there)
    rw [stands.profile] at profile
    contradiction
  | some p =>
    dsimp only
    cases due : (t.interface.managed && p.address.autoconf6) && (t.interface.link.up &&
        t.interface.link.carrier && (linkLocalOf env.observed t.interface.link.index).isSome) with
    | false =>
      cases there : t.interface.ndp.isSome with
      | true =>
        have unwanted : ∀ e ∈ t.interface.stopIpv6.ndp, e.wantsDhcp6 = false := by
          rintro e ⟨⟩
        have nothing := startDhcp6WhereDue_of_unwanted unwanted rfl env
        simp only [Bool.not_false, Bool.and_self, Bool.false_and, Bool.false_eq_true, ↓reduceIte]
        exact .inl nothing
      | false =>
        have none : t.interface.ndp = none := by simpa using there
        have nothing := startDhcp6WhereDue_of_unwanted (i := t.interface) (by simp [none]) (idle none) env
        simp only [Bool.false_and, Bool.false_eq_true, ↓reduceIte]
        exact .inr (.inl ⟨nothing, none⟩)
    | true =>
      simp only [Bool.not_true, Bool.and_false, Bool.true_and, Bool.false_eq_true, ↓reduceIte]
      simp only [Bool.and_eq_true] at due
      obtain ⟨⟨_, autoconf6⟩, ⟨up, carrier⟩, address⟩ := due
      cases none : t.interface.ndp.isNone with
      | false => exact .inr (.inr (.inr ⟨address, by simp⟩))
      | true =>
        have none := Option.isNone_iff_eq_none.mp none
        simp only [↓reduceIte]
        split_ifs
        · cases env.secret with
          | none => exact .inr (.inl ⟨rfl, none⟩)
          | some secret =>
            refine .inr (.inr (.inl ⟨p, secret, stands_of_profile profile up carrier, autoconf6, none, address, ?_⟩))
            exact startDhcp6WhereDue_of_unwanted (startNdp_unwanted t.interface env secret) (idle none) env
        · exact .inr (.inl ⟨rfl, none⟩)

theorem startIpv6WhereDue_governed {t : Tracked} (governed : Governed t) (env : Environment) :
    Governed (t.startIpv6WhereDue env) ∧ ((t.startIpv6WhereDue env).interface.ndp.isSome = true →
      (linkLocalOf env.observed (t.startIpv6WhereDue env).interface.link.index).isSome = true) := by
  rw [Tracked.startIpv6WhereDue]
  rcases startIpv6WhereDue_cases governed env with stopped | ⟨same, none⟩ |
    ⟨p, secret, stands, autoconf6, none, address, started⟩ | ⟨address, same⟩
  · rw [stopped]
    exact ⟨stopIpv6_governed governed, fun there => nomatch there⟩
  · rw [same]
    refine ⟨governed.unchanged, fun there => ?_⟩
    change t.interface.ndp.isSome = true at there
    rw [none] at there
    contradiction
  · rw [started]
    exact ⟨startNdp_governed governed stands autoconf6 none env secret, fun _ => address⟩
  · rw [same]
    refine ⟨startDhcp6WhereDue_governed governed env, fun _ => ?_⟩
    change (linkLocalOf env.observed (t.interface.startDhcp6WhereDue env).link.index).isSome = true
    rcases startDhcp6WhereDue_cases governed env with kept | ⟨_, _, c, started⟩
    · rw [kept]
      exact address
    · rw [started]
      exact address

/-- A pass keeps the clients in line, on a link that is the loopback or not as before. -/
theorem pass_governed {t : Tracked} (governed : Governed t) (p : Pass)
    (loopback : p.link.loopback = t.interface.link.loopback) :
    Governed (t.pass p) ∧ ((t.pass p).interface.ndp.isSome = true →
      (linkLocalOf p.env.observed (t.pass p).interface.link.index).isSome = true) :=
  startIpv6WhereDue_governed
    (startDhcpWhereDue_governed (syncLink_governed governed loopback p.outcome) p.env) p.env

/-! ## Whole runs -/

/-- What holds of an interface after a pass that saw `observed`. -/
structure Lifecycle (observed : Observed) (t : Tracked) : Prop where
  dhcp : t.interface.dhcp.isSome = true → ∃ p, t.interface.outcome = .join p ∧ p.address.dhcp4 = true ∧
    t.interface.link.loopback = false ∧ t.interface.link.up = true ∧ t.interface.link.carrier = true
  ndp : t.interface.ndp.isSome = true → ∃ p, t.interface.outcome = .join p ∧ p.address.autoconf6 = true ∧
    t.interface.link.up = true ∧ t.interface.link.carrier = true ∧
    ∃ a ∈ observed.addressesOf t.interface.link.index, a.isLinkLocal6 = true ∧ a.tentative = false
  dhcp6 : t.interface.dhcp6.isSome = true → ∃ e ∈ t.interface.ndp, e.wantsDhcp6 = true
  held : t.interface.lease.isSome = true ∨ t.interface.restart.isSome = true ∨
    t.interface.linkLocal.isSome = true → t.interface.dhcp.isSome = true
  lease : t.interface.lease = none ∨
      (∃ p, t.interface.outcome = .join p ∧ p.address.onExpiry = .drop) →
    t.interface.lease = t.interface.dhcp.bind fun c => c.lease
  dhcpBegan : t.interface.dhcp.isSome = true → t.began.dhcp = t.interface.outcome.profile
  ndpBegan : t.interface.ndp.isSome = true → t.began.ndp = t.interface.outcome.profile
  dhcp6Began : t.interface.dhcp6.isSome = true → t.began.dhcp6 = t.interface.outcome.profile

theorem linkLocalOf_isSome {observed : Observed} {index : U32}
    (found : (linkLocalOf observed index).isSome = true) :
    ∃ a ∈ observed.addressesOf index, a.isLinkLocal6 = true ∧ a.tentative = false := by
  rw [linkLocalOf, List.findSome?_isSome_iff] at found
  obtain ⟨a, member, finished⟩ := found
  refine ⟨a, member, ?_⟩
  rw [Address.isLinkLocal6]
  cases address : a.address with
  | v4 ip =>
    rw [address] at finished
    contradiction
  | v6 ip =>
    simp only [address] at finished
    split_ifs at finished with settled
    · simpa using settled
    · contradiction

/-- A lost lease is copied as kept only where the profile says so. -/
theorem Governed.lease_eq {t : Tracked} (governed : Governed t) (plain : t.interface.lease = none ∨
    (∃ p, t.interface.outcome = .join p ∧ p.address.onExpiry = .drop)) :
    t.interface.lease = t.interface.dhcp.bind fun c => c.lease := by
  cases client : t.interface.dhcp with
  | none =>
    by_contra kept
    have there := governed.held (.inl (Option.isSome_iff_ne_none.mpr kept))
    rw [client] at there
    contradiction
  | some c =>
    rcases governed.mirrored c client with same | ⟨keep, lost⟩
    · exact same
    · rcases plain with none | ⟨p, joined, drop⟩
      · exact none.trans lost.symm
      · obtain ⟨q, stands, _⟩ := governed.dhcp (by rw [client]; rfl)
        have same : q = p := by simpa using stands.joined.symm.trans joined
        rw [keeps, stands.profile, same] at keep
        simp [drop] at keep

theorem Governed.lifecycle {t : Tracked} (governed : Governed t) {observed : Observed}
    (address : t.interface.ndp.isSome = true →
      (linkLocalOf observed t.interface.link.index).isSome = true) : Lifecycle observed t where
  dhcp there := by
    obtain ⟨p, stands, dhcp4, _⟩ := governed.dhcp there
    exact ⟨p, stands.joined, dhcp4, stands.wired, stands.up, stands.carrier⟩
  ndp there := by
    obtain ⟨p, stands, autoconf6, _⟩ := governed.ndp there
    exact ⟨p, stands.joined, autoconf6, stands.up, stands.carrier, linkLocalOf_isSome (address there)⟩
  dhcp6 there := by
    obtain ⟨_, _, _, wanted⟩ := governed.dhcp6 there
    exact wanted
  held := governed.held
  lease := governed.lease_eq
  dhcpBegan there := by
    obtain ⟨p, stands, _, began⟩ := governed.dhcp there
    rw [began, stands.joined]
    rfl
  ndpBegan there := by
    obtain ⟨p, stands, _, began⟩ := governed.ndp there
    rw [began, stands.joined]
    rfl
  dhcp6Began there := by
    obtain ⟨p, stands, began, _⟩ := governed.dhcp6 there
    rw [began, stands.joined]
    rfl

theorem syncLink_link (i : Interface) (link : Link) (outcome : Outcome) :
    (i.syncLink link outcome).link = link := by
  have adopted : (i.adoptLink link).link = link := by
    rw [adoptLink]
    split_ifs <;> rfl
  rw [syncLink, adoptOutcome]
  split_ifs <;> exact adopted

/-- After a pass the interface has the link the kernel reported. -/
theorem pass_link {t : Tracked} (governed : Governed t) (p : Pass)
    (loopback : p.link.loopback = t.interface.link.loopback) : (t.pass p).interface.link = p.link := by
  have synced := syncLink_governed governed loopback p.outcome
  have dhcp : ((t.syncLink p.link p.outcome).startDhcpWhereDue p.env).interface.link = p.link := by
    refine Eq.trans ?_ (syncLink_link t.interface p.link p.outcome)
    change ((t.syncLink p.link p.outcome).interface.startDhcpWhereDue p.env).link = _
    rcases startDhcpWhereDue_cases synced p.env with same | ⟨q, mac, _, _, _, started⟩
    · rw [same]
      rfl
    · obtain ⟨c, fixed, _⟩ := startDhcp_spec (t.syncLink p.link p.outcome).interface p.env mac
        q.address.announceHostname
      rw [started]
      exact congrArg Prod.fst fixed
  refine Eq.trans ?_ dhcp
  have governed' := startDhcpWhereDue_governed synced p.env
  change (((t.syncLink p.link p.outcome).startDhcpWhereDue p.env).interface.startIpv6WhereDue p.env).link = _
  rcases startIpv6WhereDue_cases governed' p.env with stopped | ⟨same, _⟩ | ⟨_, _, _, _, _, _, started⟩ | ⟨_, same⟩
  · rw [stopped]
    rfl
  · rw [same]
  · rw [started]
    rfl
  · rw [same]
    rcases startDhcp6WhereDue_cases governed' p.env with kept | ⟨_, _, c, started⟩
    · rw [kept]
    · rw [started]

theorem handle_link (sha1 : Bytes → BitVec 160) (i : Interface) (event : Event) :
    (i.handle sha1 event).1.link = i.link := by
  have performed (j : Interface) (actions : List Dhcp4.Action) : (j.perform actions).1.link = j.link :=
    congrArg Prod.fst (perform_spec j actions).1
  cases event with
  | message now message =>
    rw [handle, receiveMessage]
    cases i.dhcp with
    | none => rfl
    | some c => exact performed _ _
  | advert now message =>
    rw [handle, receiveAdvert]
    split_ifs
    · rfl
    · cases i.ndp <;> rfl
  | datagram now datagram =>
    rw [handle, receiveDatagram]
    cases i.dhcp6 <;> rfl
  | tickDhcp now =>
    rw [handle, tickDhcp]
    cases i.dhcp with
    | none => exact performed _ _
    | some c => exact performed _ _
  | tickNdp now =>
    rw [handle, tickNdp]
    cases i.ndp <;> rfl
  | tickDhcp6 now =>
    rw [handle, tickDhcp6]
    cases i.dhcp6 <;> rfl
  | renew now =>
    rw [handle, renew]
    cases i.dhcp with
    | none => rfl
    | some c => exact performed _ _

/-- A slot that is empty or governed, on a link that is the loopback or not as it always was. -/
def Kept (loopback : Bool) (slot : Option Tracked) : Prop :=
  ∀ t ∈ slot, Governed t ∧ t.interface.link.loopback = loopback

/-- A sighting of the loopback or of another link, as before. -/
def SameKind (loopback : Bool) : Step → Prop
  | .sight s => ∀ link ∈ s.link, link.loopback = loopback
  | .event _ => True

variable (sha1 : Bytes → BitVec 160)

/-- The interface a pass works on, new or not. -/
theorem Kept.getD {loopback : Bool} {slot : Option Tracked} (kept : Kept loopback slot) (ifid : String)
    {link : Link} (same : link.loopback = loopback) :
    Governed (slot.getD (.new ifid link)) ∧
      link.loopback = (slot.getD (.new ifid link)).interface.link.loopback := by
  cases slot with
  | none => exact ⟨new_governed ifid link, rfl⟩
  | some t =>
    obtain ⟨governed, before⟩ := kept t rfl
    exact ⟨governed, same.trans before.symm⟩

theorem next_kept {loopback : Bool} {slot : Option Tracked} {step : Step} (kept : Kept loopback slot)
    (same : SameKind loopback step) : Kept loopback ((Tracked.slots sha1).next slot step) := by
  cases step with
  | sight s =>
    intro t member
    obtain ⟨link, there, rfl⟩ := Option.map_eq_some_iff.mp member
    obtain ⟨governed, before⟩ := kept.getD s.ifid (same link there)
    refine ⟨(pass_governed governed ⟨link, s.outcome, s.env⟩ before).1, ?_⟩
    rw [pass_link governed ⟨link, s.outcome, s.env⟩ before]
    exact same link there
  | event event =>
    intro t member
    obtain ⟨u, there, rfl⟩ := Option.map_eq_some_iff.mp member
    obtain ⟨governed, before⟩ := kept u there
    refine ⟨handle_governed sha1 governed event, ?_⟩
    change (u.interface.handle sha1 event).1.link.loopback = loopback
    rw [handle_link]
    exact before

theorem run_kept {loopback : Bool} {slot : Option Tracked} (kept : Kept loopback slot) (steps : List Step)
    (same : ∀ step ∈ steps, SameKind loopback step) :
    Kept loopback ((Tracked.slots sha1).run slot steps) := by
  induction steps generalizing slot with
  | nil => exact kept
  | cons step rest ih =>
    obtain ⟨first, later⟩ := List.forall_mem_cons.mp same
    exact ih (next_kept sha1 kept first) later

/-- After any steps in the life of an index, a pass leaves clients only where they are due, what
clients leave only with the client, and no client that was started under another profile. -/
theorem clients_governed (loopback : Bool) (steps : List Step) (s : Sighting)
    (same : ∀ step ∈ steps ++ [.sight s], SameKind loopback step) :
    ((Tracked.slots sha1).run none (steps ++ [.sight s])).map Tracked.interface =
        (Interface.slots sha1).run none (steps ++ [.sight s]) ∧
      ∀ t ∈ (Tracked.slots sha1).run none (steps ++ [.sight s]), Lifecycle s.env.observed t := by
  refine ⟨Tracked.run_interface sha1 none _, fun t member => ?_⟩
  obtain ⟨earlier, last⟩ := List.forall_mem_append.mp same
  have empty : Kept loopback none := fun _ none => nomatch none
  have kept := run_kept sha1 empty steps earlier
  rw [Transducer.run_append] at member
  obtain ⟨link, there, rfl⟩ := Option.map_eq_some_iff.mp member
  obtain ⟨governed, before⟩ := kept.getD s.ifid (List.forall_mem_singleton.mp last link there)
  obtain ⟨after, address⟩ := pass_governed governed ⟨link, s.outcome, s.env⟩ before
  exact after.lifecycle address

/-- A link with a carrier that joins a profile taking everything the network offers. -/
def sighting : Sighting where
  ifid := "eth0"
  link := some ⟨2, "eth0", some 0x020000000001#48, true, true, false, 1500, 1, .ether⟩
  outcome := .join { path := "office", enabled := true, address := { offered := true }, dns := {} }
  env :=
    { now := 0
      observed :=
        { links := .empty
          addresses := [.new 2 (.v6 0xfe800000000000000000000000000001#128) 64]
          routes := [] }
      hostname := none
      clientId := []
      duid := []
      secret := some []
      previous := none
      created := 0
      entropy4 := 1
      entropy6 := 2
      packetSocket := true
      icmp6Socket := true
      dhcp6Socket := true }

/-- Both clients are started where they are due. -/
theorem clients_governed_sighting :
    (((Tracked.slots fun _ => 0).run none ([] ++ [.sight sighting])).map fun t =>
        (t.interface.dhcp.isSome, t.interface.ndp.isSome)) = some (true, true) ∧
      ∀ t ∈ (Tracked.slots fun _ => 0).run none ([] ++ [.sight sighting]),
        Lifecycle sighting.env.observed t := by
  refine ⟨by decide +kernel, (clients_governed (fun _ => 0) false [] sighting ?_).2⟩
  rintro step (_ | ⟨_, ⟨⟩⟩)
  rintro link ⟨⟩
  rfl

end Netd.Model.Interface
