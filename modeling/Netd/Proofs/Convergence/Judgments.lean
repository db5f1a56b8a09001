import Netd.Proofs.Convergence.Stations
import Netd.Proofs.EventLoop.Engines

/-! # Judgments are current

At the end of every turn each interface stands as the generation in force judges what it is then, the network that its
own clients identified included, and runs only the clients that this judgment asks for. A pass establishes this whatever
went before it; an event leaves it alone; a generation that is taken, and a network that is identified, are followed by
a pass before the turn ends.
-/

namespace Netd.Model.Convergence

open Interface (Warranted bearings_eq)
open Policy (Conditions)

variable {Condition : Type} {sha1 : Bytes → BitVec 160} {language : Conditions Condition Facts}

/-! ## At one interface -/

/-- Clients where they are due, and a network only behind a carrier. -/
structure Sound (st : Station) : Prop where
  warranted : Warranted st.interface
  located : st.network.isSome = true → st.interface.link.up = true ∧ st.interface.link.carrier = true

/-- The judgment is the one that the policy makes of the interface as it is. -/
def Judged (language : Conditions Condition Facts) (policy : Policy Condition) (st : Station) : Prop :=
  st.interface.link.loopback = false → st.judgment = policy.judge language st.subject.facts

/-- Clients that move do not change how an interface stands. -/
theorem Judged.carried {policy : Policy Condition} {st : Station} (judged : Judged language policy st)
    {after : Interface} (same : after.bearings = st.interface.bearings) :
    Judged language policy { st with interface := after } := by
  obtain ⟨ifid, link, outcome⟩ := bearings_eq same
  have judgment : Station.judgment { st with interface := after } = st.judgment := by
    rw [Station.judgment, outcome]
    rfl
  have subject : Station.subject { st with interface := after } = st.subject := by
    rw [Station.subject, ifid, link]
    rfl
  intro wired
  rw [judgment, subject]
  exact judged (link ▸ wired)

theorem Sound.moved {st : Station} (sound : Sound st) {after : Interface} (warranted : Warranted after)
    (same : after.bearings = st.interface.bearings) : Sound { st with interface := after } where
  warranted := warranted
  located known := by
    obtain ⟨-, link, -⟩ := bearings_eq same
    change after.link.up = true ∧ after.link.carrier = true
    rw [link]
    exact sound.located known

theorem new_sound (sha1 : Bytes → BitVec 160) (identity : Identity) (link : Link) :
    Sound (Station.new sha1 identity link) where
  warranted := Interface.Stopped.warranted ⟨rfl, rfl, rfl, rfl, rfl, rfl⟩
  located known := by contradiction

/-- A network is only identified behind a carrier. -/
theorem identify_sound {st : Station} (sound : Sound st) (now : ℕ) (words : String → Words) :
    Sound (st.identify sha1 now words) := by
  rw [Station.identify]
  cases shown : st.identified sha1 now with
  | none => exact sound
  | some id =>
    rw [Station.identified] at shown
    split_ifs at shown with stands
    simp only [Bool.and_eq_true] at stands
    obtain ⟨⟨-, up⟩, carrier⟩ := stands
    dsimp only
    split_ifs
    · exact ⟨sound.warranted, fun _ => ⟨up, carrier⟩⟩
    · exact ⟨⟨sound.warranted.dhcp, sound.warranted.ndp, sound.warranted.dhcp6, sound.warranted.lease⟩,
        fun _ => ⟨up, carrier⟩⟩

/-- What a pass makes of the clients is what the interface makes of the verdict on it. -/
theorem syncLink_interface (policy : Policy Condition) (st : Station) (link : Link) :
    (st.syncLink language policy link).interface =
      st.interface.syncLink link (policy.judge language (st.adoptLink link).subject.facts).outcome := by
  rw [Station.syncLink, Interface.syncLink]
  split_ifs <;> rfl

theorem syncLink_network (policy : Policy Condition) (st : Station) (link : Link) :
    (st.syncLink language policy link).network = (st.adoptLink link).network := by
  rw [Station.syncLink]
  split_ifs <;> rfl

/-- The network goes with the carrier. -/
theorem syncLink_sound {st : Station} (sound : Sound st) (policy : Policy Condition) (link : Link) :
    Sound (st.syncLink language policy link) where
  warranted := by
    rw [syncLink_interface]
    exact Interface.syncLink_warranted sound.warranted link _
  located known := by
    rw [syncLink_network, Station.adoptLink] at known
    dsimp only at known
    rw [syncLink_interface, Interface.syncLink_link]
    split_ifs at known with lost
    · contradiction
    · obtain ⟨up, carrier⟩ := sound.located known
      simpa [up, carrier, and_comm] using lost

/-- Whatever an interface was judged before, it is judged as it now is. -/
theorem syncLink_judged (policy : Policy Condition) (st : Station) (link : Link) :
    Judged language policy (st.syncLink language policy link) := by
  intro wired
  rw [syncLink_interface, Interface.syncLink_link] at wired
  have outcome := Interface.syncLink_outcome st.interface link
    (policy.judge language (st.adoptLink link).subject.facts).outcome
  rw [if_neg (by simp [wired])] at outcome
  have seen : (st.syncLink language policy link).subject = (st.adoptLink link).subject := by
    rw [Station.syncLink, wired]
    change Station.subject (Station.adoptJudgment _ _) = _
    rw [Station.subject, Station.adoptJudgment, Interface.adoptOutcome]
    split_ifs <;> rfl
  rw [seen, Station.judgment, syncLink_interface, outcome, Station.syncLink, wired]
  rfl

theorem starts_sound {st : Station} (sound : Sound st) (env : Interface.Environment) :
    Sound ((st.startDhcpWhereDue env).startIpv6WhereDue env) := by
  have first : Sound (st.startDhcpWhereDue env) :=
    sound.moved (Interface.startDhcpWhereDue_warranted sound.warranted _) (Interface.startDhcpWhereDue_bearings _ _)
  exact first.moved (Interface.startIpv6WhereDue_warranted first.warranted _)
    (Interface.startIpv6WhereDue_bearings _ _)

theorem starts_judged {policy : Policy Condition} {st : Station} (judged : Judged language policy st)
    (env : Interface.Environment) : Judged language policy ((st.startDhcpWhereDue env).startIpv6WhereDue env) := by
  have first : Judged language policy (st.startDhcpWhereDue env) :=
    judged.carried (Interface.startDhcpWhereDue_bearings _ _)
  exact first.carried (Interface.startIpv6WhereDue_bearings _ _)

/-! ## Over the table -/

/-- Every interface of the table. -/
def Everywhere (holds : Station → Prop) (s : State Condition) : Prop :=
  ∀ index st, s.stations.lookup index = some st → holds st

namespace State

theorem lookup_syncLinks (s : State Condition) (o : Outside) (index : U32) :
    (s.syncLinks sha1 language o).stations.lookup index = (s.observed.links.lookup index).map fun link =>
      ((s.stations.lookup index).getD (.new sha1 (o.identity link.name) link)).syncLink language s.daemon.policy link := by
  let value (_ : U32) (slot : Option Station) (link : Link) : Station :=
    (slot.getD (.new sha1 (o.identity link.name) link)).syncLink language s.daemon.policy link
  refine (SortedMap.lookup_foldl_insert value s.observed.links _ index).trans ?_
  rw [SortedMap.lookup_filter]
  cases there : s.observed.links.lookup index with
  | none => simp
  | some link => cases s.stations.lookup index <;> simp [value, Option.filter]

/-- A pass as one index sees it. -/
theorem lookup_pass (s : State Condition) (now : ℕ) (o : Outside) (index : U32) :
    (s.pass sha1 language now o).stations.lookup index = (s.observed.links.lookup index).map fun link =>
      let found := ((s.stations.lookup index).map fun st => st.identify sha1 now (o.words index)).getD
        (.new sha1 (o.identity link.name) link)
      let env := s.environment now o index
      (((found.syncLink language s.daemon.policy link).startDhcpWhereDue env).startIpv6WhereDue env) := by
  rw [pass, startIpv6WhereDue, startDhcpWhereDue]
  simp only [SortedMap.lookup_mapVal, lookup_syncLinks, Option.map_map]
  rw [identifyNetworks]
  simp only [SortedMap.lookup_mapVal]
  rfl

/-- A pass judges everything, whatever was thought of it before. -/
theorem pass_everywhere {s : State Condition} (sound : Everywhere Sound s) (now : ℕ) (o : Outside) :
    Everywhere (fun st => Sound st ∧ Judged language s.daemon.policy st) (s.pass sha1 language now o) := by
  intro index st found
  rw [lookup_pass] at found
  obtain ⟨link, -, rfl⟩ := Option.map_eq_some_iff.mp found
  have before : Sound (((s.stations.lookup index).map fun st => st.identify sha1 now (o.words index)).getD
      (.new sha1 (o.identity link.name) link)) := by
    cases there : s.stations.lookup index with
    | none => exact new_sound sha1 _ link
    | some st => exact identify_sound (sound index st there) now _
  exact ⟨starts_sound (syncLink_sound before _ link) _, starts_judged (syncLink_judged _ _ link) _⟩

/-- What holds after a pass and its reconcile. -/
structure Current (language : Conditions Condition Facts) (s : State Condition) : Prop where
  sound : Everywhere Sound s
  judged : Everywhere (Judged language s.daemon.policy) s

theorem pass_current {s : State Condition} (sound : Everywhere Sound s) (now : ℕ) (r : Round) :
    Current language ((s.pass sha1 language now r.outside).reconcile r.dump) where
  sound index st found := (pass_everywhere sound now r.outside index st found).1
  judged index st found := (pass_everywhere sound now r.outside index st found).2

theorem convergeWithin_current {s : State Condition} (sound : Everywhere Sound s) (now : ℕ) (rounds : ℕ → Round)
    (left : ℕ) : Current language (s.convergeWithin sha1 language now rounds (left + 1)) := by
  induction left generalizing s with
  | zero =>
    rw [convergeWithin]
    split_ifs <;> exact pass_current sound now _
  | succ left ih =>
    rw [convergeWithin]
    split_ifs
    · exact pass_current sound now _
    · exact ih (pass_current sound now (rounds (left + 1))).sound

theorem converge_current {s : State Condition} (sound : Everywhere Sound s) (now : ℕ) (rounds : ℕ → Round) :
    Current language (s.converge sha1 language now rounds) := convergeWithin_current sound now rounds 3

/-! ## Over a turn -/

theorem handle_everywhere {holds : Station → Prop} {s : State Condition} (all : Everywhere holds s)
    (moves : ∀ st event, holds st → holds { st with interface := (st.interface.handle sha1 event).1 })
    (index : U32) (event : Interface.Event) : Everywhere holds (s.handle sha1 index event).1 := by
  intro other st found
  rw [handle, SortedMap.lookup_modify] at found
  split_ifs at found
  · obtain ⟨before, there, rfl⟩ := Option.map_eq_some_iff.mp found
    exact moves before event (all other before there)
  · exact all other st found

theorem handle_sound {s : State Condition} (sound : Everywhere Sound s) (index : U32) (event : Interface.Event) :
    Everywhere Sound (s.handle sha1 index event).1 := by
  refine handle_everywhere sound (fun st event sound => ?_) index event
  have carried := Interface.handle_carried sha1 st.interface event
  exact sound.moved (sound.warranted.carried carried) carried.bearings

theorem handle_judged {policy : Policy Condition} {s : State Condition}
    (judged : Everywhere (Judged language policy) s) (index : U32) (event : Interface.Event) :
    Everywhere (Judged language policy) (s.handle sha1 index event).1 :=
  handle_everywhere judged
    (fun st event judged => judged.carried (Interface.handle_carried sha1 st.interface event).bearings) index event

/-- An event leaves every interface standing as it does. -/
theorem handle_current {s : State Condition} (current : Current language s) (index : U32) (event : Interface.Event) :
    Current language (s.handle sha1 index event).1 where
  sound := handle_sound current.sound index event
  judged := handle_judged current.judged index event

theorem handleAll_induction {holds : State Condition → Prop} {s : State Condition} (start : holds s)
    (moves : ∀ s index event, holds s → holds (s.handle sha1 index event).1)
    (events : List (U32 × Interface.Event)) : holds (s.handleAll sha1 events).1 := by
  rw [handleAll]
  generalize (false, false) = flags
  induction events generalizing s flags with
  | nil => exact start
  | cons event rest ih => exact ih (moves s event.1 event.2 start) _

theorem renew_induction {holds : State Condition → Prop} {s : State Condition} (start : holds s)
    (moves : ∀ s index event, holds s → holds (s.handle sha1 index event).1) (interface : String) (now : ℕ) :
    holds (s.renew sha1 interface now) := by
  rw [renew]
  split
  · exact moves _ _ _ start
  · exact start

/-- Requests keep an account that is good, and a pass among them makes one good. -/
theorem serve_current {s : State Condition} (current : Current language s) (request : Request) :
    Current language (s.serve sha1 language request) := by
  cases request with
  | reconcile now rounds => exact converge_current current.sound now rounds
  | renew interface now => exact renew_induction current (fun _ index event held => handle_current held index event) _ _

theorem serve_sound {s : State Condition} (sound : Everywhere Sound s) (request : Request) :
    Everywhere Sound (s.serve sha1 language request) := by
  cases request with
  | reconcile now rounds => exact (converge_current sound now rounds).sound
  | renew interface now => exact renew_induction sound (fun _ index event held => handle_sound held index event) _ _

/-- What events and requests keep holds at the end of a turn's share of them. -/
theorem answered_induction {holds : State Condition → Prop} {s : State Condition} (start : holds s)
    (moves : ∀ s index event, holds s → holds (s.handle sha1 index event).1)
    (serves : ∀ s request, holds s → holds (s.serve sha1 language request)) (t : Turn) :
    holds (t.requests.foldl (serve sha1 language) (s.handleAll sha1 t.handled).1) := by
  apply List.foldlRecOn t.requests (serve sha1 language) (handleAll_induction start moves t.handled)
  intro after held request _
  exact serves after request held

/-- Without a pass to follow, a reload leaves the policy and the table alone. -/
theorem reload_cases (s : State Condition) (watch : Option (WatchRead × Option Config)) :
    (s.reload language watch).1.stations = s.stations ∧
      ((s.reload language watch).2 = true ∨ (s.reload language watch).1 = s) := by
  cases watch with
  | none => exact ⟨rfl, .inr rfl⟩
  | some answer =>
    obtain ⟨watch, read⟩ := answer
    refine ⟨rfl, ?_⟩
    cases watch with
    | events =>
      cases read with
      | none => exact .inr rfl
      | some fresh => exact .inl rfl
    | nothing => exact .inr rfl
    | failed => exact .inr rfl

/-- A turn ends with every judgment current. -/
theorem turn_current {s : State Condition} (current : Current language s) (t : Turn) :
    Current language (s.turn sha1 language t) := by
  obtain ⟨stations, followed⟩ := @reload_cases _ language (s.reconcile t.dump) t.watch
  rw [turn]
  dsimp only
  generalize (s.reconcile t.dump).reload language t.watch = reloaded at stations followed ⊢
  obtain ⟨after, full⟩ := reloaded
  dsimp only at stations followed ⊢
  have sound : Everywhere Sound after := by
    intro index st found
    rw [stations] at found
    exact current.sound index st found
  have answered : Everywhere Sound (t.requests.foldl (serve sha1 language) (after.handleAll sha1 t.handled).1) := by
    apply answered_induction sound
    · exact fun _ index event held => handle_sound held index event
    · exact fun _ request held => serve_sound held request
  split_ifs with pass some
  · exact converge_current answered t.now t.rounds
  all_goals
    -- No generation was read, so what was current still is.
    have kept : after = s.reconcile t.dump := by
      refine followed.resolve_left fun yes => pass ?_
      simp [yes]
    have before : Current language after := by
      rw [kept]
      exact ⟨current.sound, current.judged⟩
    have ended : Current language (t.requests.foldl (serve sha1 language) (after.handleAll sha1 t.handled).1) := by
      apply answered_induction before
      · exact fun _ index event held => handle_current held index event
      · exact fun _ request held => serve_current held request
  · exact ⟨ended.sound, ended.judged⟩
  · exact ended

/-- After any turns every interface but the loopback is judged by the generation in force as it now is, its network is
one behind its carrier, and it runs only clients that this judgment asks for. -/
theorem judgments_current (config : Config) (observed : Observed) (now : ℕ) (rounds : ℕ → Round) (turns : List Turn) :
    let s := (machine sha1 language).run (start sha1 language config observed now rounds) turns
    ∀ index st, s.stations.lookup index = some st → st.interface.link.loopback = false →
      let judgment := s.daemon.policy.judge language st.subject.facts
      let asked (wanted : AddressConfig → Bool) := ∃ p, judgment.outcome = .join p ∧ wanted p.address = true ∧
        st.interface.link.up = true ∧ st.interface.link.carrier = true
      st.judgment = judgment ∧
        (st.network.isSome = true → st.interface.link.up = true ∧ st.interface.link.carrier = true) ∧
        (st.interface.dhcp.isSome = true → asked AddressConfig.dhcp4) ∧
        (st.interface.ndp.isSome = true → asked AddressConfig.autoconf6) ∧
        (st.interface.dhcp6.isSome = true → st.interface.ndp.isSome = true) ∧
        (st.interface.lease.isSome = true → st.interface.dhcp.isSome = true) := by
  intro s index st found wired
  have empty : Everywhere Sound (⟨(Daemon.start language config).1, observed, .empty⟩ : State Condition) := by
    intro index st found
    contradiction
  have next (s : State Condition) (t : Turn) (held : Current language s) :
      Current language ((machine sha1 language).next s t) := turn_current held t
  have current : Current language s :=
    (machine sha1 language).run_invariant next (converge_current empty now rounds) turns
  have sound := current.sound index st found
  have judged := current.judged index st found wired
  have outcome : st.interface.outcome = (s.daemon.policy.judge language st.subject.facts).outcome :=
    congrArg Policy.Judgment.outcome judged
  obtain ⟨dhcp, ndp, dhcp6, lease⟩ := sound.warranted
  simp only [Interface.Asks, outcome] at dhcp ndp
  exact ⟨judged, sound.located, dhcp, ndp, dhcp6, lease⟩

end State

end Netd.Model.Convergence
