import Mathlib.Data.List.Induction
import Netd.Proofs.Dhcp4.Stints

/-! # Reports of an unanswered client

`NoOffer` goes out with the fourth DISCOVER of a stint in `Selecting`, unless it went out before in the same
unanswered period, which a start or a lease ends.
-/

namespace Netd.Model.Dhcp4.Client

/-- Something in a run ends an unanswered period: a start, or a lease. -/
def Answered (c : Client) (ops : List Op) : Prop :=
  (∃ op ∈ ops, op.starts = true) ∨ ∃ out ∈ machine.outputs c ops, ∃ lease, .bound lease ∈ out

/-- The report went out in a run, and nothing has ended the period since. -/
def Reported (c : Client) (ops : List Op) : Prop :=
  ∃ earlier op later, ops = earlier ++ op :: later ∧ .noOffer ∈ machine.output (machine.run c earlier) op ∧
    ¬Answered (machine.run c (earlier ++ [op])) later

/-- The flag after a turn: raised by a report, and kept until the period ends. -/
theorem Turn.flag {c after : Client} {op : Op} {actions : List Action} (turns : Turn c op after actions) :
    after.noOfferReported = true ↔
      .noOffer ∈ actions ∨
        c.noOfferReported = true ∧ op.starts = false ∧ ∀ lease, .bound lease ∉ actions := by
  cases turns with
  | idle goes => simp [goes]
  | enters fresh acquires attempts backed flag notice message =>
    obtain ⟨_, _, rfl, -⟩ := message
    obtain rfl | rfl := notice <;> simp [flag, and_comm]
  | repeats goes state acquires unheld attempts patient backed notice message =>
    obtain ⟨_, _, rfl, -⟩ := message
    split at notice
    · obtain ⟨rfl, flag⟩ := notice
      simp [flag]
    · obtain ⟨rfl, flag⟩ := notice
      simp [flag, goes]
  | renews goes state flag held since scheduled message =>
    obtain ⟨_, _, rfl, -⟩ := message
    simp [flag, goes]
  | binds goes state flag => simp [flag]
  | stops goes state flag told => obtain rfl | ⟨_, _, rfl⟩ := told <;> simp [flag, goes]

/-- A report is made by a client whose flag is down, and by its third repetition of a DISCOVER at the earliest. -/
theorem Turn.reports {c after : Client} {op : Op} {actions : List Action} (turns : Turn c op after actions)
    (report : .noOffer ∈ actions) :
    after.state = c.state ∧ c.state = .selecting ∧ after.lease = none ∧ after.attempts = c.attempts + 1 ∧
      discoversBeforeNoOffer ≤ after.attempts ∧ c.noOfferReported = false ∧
      ∃ message destination, actions = [.noOffer, .send message destination] ∧
        message.messageType = some .discover := by
  cases turns with
  | idle => contradiction
  | enters fresh acquires attempts backed flag notice message =>
    obtain ⟨_, _, rfl, -⟩ := message
    obtain rfl | rfl := notice <;> simp at report
  | repeats goes state acquires unheld attempts patient backed notice message =>
    obtain ⟨message, destination, rfl, typed⟩ := message
    split at notice
    · next due =>
      obtain ⟨rfl, flag⟩ := notice
      rw [state, due.1] at typed
      exact ⟨state, due.1, unheld, attempts, due.2.1, due.2.2, message, destination, rfl, typed⟩
    · obtain ⟨rfl, -⟩ := notice
      simp at report
  | renews goes state flag held since scheduled message =>
    obtain ⟨_, _, rfl, -⟩ := message
    simp at report
  | binds => simp at report
  | stops goes state flag told => obtain rfl | ⟨_, _, rfl⟩ := told <;> simp at report

/-- A client and its count: past the fourth DISCOVER of a stint, the report is out. -/
def Told (s : Client × ℕ) : Prop := Paced s ∧ (s.1.state = .selecting → 4 ≤ s.2 → s.1.noOfferReported = true)

theorem told_next (s : Client × ℕ) (op : Op) (told : Told s) : Told (counted.next s op) := by
  obtain ⟨paced, told⟩ := told
  have next := paced_next s op paced
  refine ⟨next, fun selecting fourth => ?_⟩
  have turns := turn op paced.valid
  have count := next.sent (by rw [selecting]; rfl)
  rw [counted_next] at selecting count fourth ⊢
  generalize machine.next s.1 op = after, machine.output s.1 op = actions at turns selecting count fourth ⊢
  dsimp only at selecting count
  rw [count] at fourth
  cases turns with
  | idle =>
    have earlier := paced.sent (by rw [selecting]; rfl)
    exact told selecting (by omega)
  | enters _ _ attempts => omega
  | repeats _ state acquires _ attempts _ _ notice =>
    split at notice
    · exact notice.2
    · next silent =>
      rw [notice.2]
      by_contra down
      exact silent ⟨state ▸ selecting, by simp only [discoversBeforeNoOffer]; omega, Bool.not_eq_true _ ▸ down⟩
  | renews _ state =>
    obtain state | state := state
    all_goals
      rw [state] at selecting
      contradiction
  | binds _ state | stops _ state =>
    rw [state] at selecting
    contradiction

theorem reachable_told (config : Config) (created : ℕ) (ops : List Op) :
    Told (counted.run (new config created, 0) ops) :=
  counted.run_invariant told_next ⟨paced_new config created, fun selecting => nomatch selecting⟩ ops

/-- Counting changes nothing. -/
theorem counted_run (s : Client × ℕ) (ops : List Op) : (counted.run s ops).1 = machine.run s.1 ops := by
  induction ops generalizing s with
  | nil => rfl
  | cons op rest ih => exact ih (counted.next s op)

/-- The flag stays up until the period ends. -/
theorem flag_kept {c : Client} (valid : c.Valid) (flag : c.noOfferReported = true) {ops : List Op}
    (unanswered : ¬Answered c ops) : (machine.run c ops).noOfferReported = true := by
  induction ops generalizing c with
  | nil => exact flag
  | cons op rest ih =>
    obtain ⟨started, bound⟩ := not_or.mp unanswered
    have goes : op.starts = false := Bool.eq_false_iff.mpr fun starts => started ⟨op, List.mem_cons_self, starts⟩
    have unbound (lease : Lease) : .bound lease ∉ machine.output c op :=
      fun member => bound ⟨_, List.mem_cons_self, lease, member⟩
    refine ih (machine_valid c op valid) ((turn op valid).flag.mpr (.inr ⟨flag, goes, unbound⟩)) ?_
    rintro (⟨other, member, starts⟩ | ⟨out, member, lease, there⟩)
    · exact started ⟨other, List.mem_cons_of_mem op member, starts⟩
    · exact bound ⟨out, List.mem_cons_of_mem _ member, lease, there⟩

/-- A flag that is up has been raised by a report that still counts. -/
theorem reported_of_flag {config : Config} {created : ℕ} {ops : List Op}
    (flag : (machine.run (new config created) ops).noOfferReported = true) : Reported (new config created) ops := by
  induction ops using List.reverseRecOn with
  | nil => contradiction
  | append_singleton ops op ih =>
    have valid := reachable_valid config created ops
    rw [machine.run_append] at flag
    obtain report | ⟨earlier, goes, unbound⟩ := (turn op valid).flag.mp flag
    · refine ⟨ops, op, [], rfl, report, ?_⟩
      rintro (⟨_, none, -⟩ | ⟨_, none, -⟩) <;> contradiction
    · obtain ⟨before, first, later, rfl, report, unanswered⟩ := ih earlier
      obtain ⟨started, bound⟩ := not_or.mp unanswered
      refine ⟨before, first, later ++ [op], by rw [List.append_assoc, List.cons_append], report, ?_⟩
      rintro (⟨other, member, starts⟩ | ⟨out, member, lease, there⟩)
      · obtain member | last := List.mem_append.mp member
        · exact started ⟨other, member, starts⟩
        · obtain rfl := List.mem_singleton.mp last
          rw [goes] at starts
          contradiction
      · rw [machine.outputs_append] at member
        obtain member | last := List.mem_append.mp member
        · exact bound ⟨out, member, lease, there⟩
        · obtain rfl := List.mem_singleton.mp last
          rw [← machine.run_append, List.append_assoc] at there
          exact unbound lease there

/-- The fourth DISCOVER of a stint, with the report beside it, by a client that holds nothing. -/
structure Fourth (s : Client × ℕ) (op : Op) : Prop where
  selecting : s.1.state = .selecting ∧ (counted.next s op).1.state = .selecting
  fourth : (counted.next s op).2 = 4
  unheld : s.1.lease = none ∧ (counted.next s op).1.lease = none
  beside : ∃ message destination, machine.output s.1 op = [.noOffer, .send message destination] ∧
    message.messageType = some .discover

theorem fourth_of_report {s : Client × ℕ} {op : Op} (told : Told s) (report : .noOffer ∈ machine.output s.1 op) :
    Fourth s op := by
  obtain ⟨paced, told⟩ := told
  obtain ⟨state, selecting, unheld, attempts, third, flag, beside⟩ := (turn op paced.valid).reports report
  have after : (machine.next s.1 op).state = .selecting := state.trans selecting
  have count := (paced_next s op paced).sent (by rw [counted_next, after]; rfl)
  have earlier := paced.sent (by rw [selecting]; rfl)
  have few : ¬4 ≤ s.2 := fun four => by
    rw [told selecting four] at flag
    contradiction
  refine ⟨⟨selecting, after⟩, ?_, ⟨(paced.valid.unheld (by rw [selecting]; rfl)).1, unheld⟩, beside⟩
  rw [count]
  change (machine.next s.1 op).attempts + 1 = 4
  simp only [discoversBeforeNoOffer] at third
  omega

/-- Nobody answered: the report goes out once in an unanswered period, with the fourth DISCOVER of a stint. -/
theorem no_offer_once (config : Config) (created : ℕ) :
    (∀ earlier first middle second,
      .noOffer ∈ machine.output (machine.run (new config created) earlier) first →
      .noOffer ∈ machine.output (machine.run (new config created) (earlier ++ first :: middle)) second →
      Answered (machine.run (new config created) (earlier ++ [first])) middle) ∧
    (∀ ops op, .noOffer ∈ machine.output (counted.run (new config created, 0) ops).1 op →
      Fourth (counted.run (new config created, 0) ops) op) ∧
    (∀ ops op message destination,
      .send message destination ∈ machine.output (counted.run (new config created, 0) ops).1 op →
      (machine.next (counted.run (new config created, 0) ops).1 op).state = .selecting →
      message.messageType = some .discover) ∧
    ∀ ops, (counted.run (new config created, 0) ops).1.state = .selecting →
      4 ≤ (counted.run (new config created, 0) ops).2 → Reported (new config created) ops := by
  refine ⟨?_, ?_, ?_, ?_⟩
  · intro earlier first middle second report again
    by_contra unanswered
    have valid := reachable_valid config created earlier
    have raised := (turn first valid).flag.mpr (.inl report)
    have next : machine.run (new config created) (earlier ++ [first]) =
        machine.next (machine.run (new config created) earlier) first := machine.run_append _ earlier [first]
    have whole : machine.run (new config created) (earlier ++ first :: middle) =
        machine.run (machine.next (machine.run (new config created) earlier) first) middle :=
      machine.run_append _ earlier (first :: middle)
    rw [next] at unanswered
    have kept := flag_kept (machine_valid _ first valid) raised unanswered
    rw [← whole] at kept
    have down := ((turn second (reachable_valid config created _)).reports again).2.2.2.2.2.1
    rw [kept] at down
    contradiction
  · intro ops op report
    exact fourth_of_report (reachable_told config created ops) report
  · intro ops op message destination sent selecting
    have turns := turn op (reachable_told config created ops).1.valid
    rw [turns.messageType (by rw [selecting]; rfl) sent, selecting]
    rfl
  · intro ops selecting fourth
    have flag := (reachable_told config created ops).2 selecting fourth
    rw [counted_run] at flag
    exact reported_of_flag flag

end Netd.Model.Dhcp4.Client
