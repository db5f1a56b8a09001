import Netd.Proofs.Ndp.Deadlines

/-! # Callers that keep the engine's deadlines

An engine is started once and then fed advertisements and ticks at instants that never go back. The
view it reported last is the view anybody would read, from the instant of the last operation up to
the next deadline; for a caller whose next operation never comes after the deadline, that is at every
instant.
-/

namespace Netd.Model.Ndp.Engine

section Runs

variable (sha1 : Bytes → BitVec 160)

/-- The engine with the instant of its last operation. -/
def timed : Transducer (Engine × ℕ) Op (List Action) := (machine sha1).clocked Op.time

theorem timed_next (s : Engine × ℕ) (op : Op) : (timed sha1).next s op = ((machine sha1).next s.1 op, op.time) := rfl

/-- An engine that was just started. -/
def started (config : Config) (now : ℕ) : Engine × ℕ := (((new config).start now).1, now)

/-- An advertisement or a tick, not before the last operation. -/
def Later (s : Engine × ℕ) (op : Op) : Prop := (∀ now, op ≠ .start now) ∧ s.2 ≤ op.time

/-- An operation that does not come after the pending deadline. -/
def Punctual (s : Engine × ℕ) (op : Op) : Prop := Later s op ∧ ∀ due ∈ s.1.nextDeadline, op.time ≤ due

/-- The view that the most recent `changed` among some operations reported, or the one known before. -/
def reported : View → Engine → List Op → View
  | seen, _, [] => seen
  | seen, e, op :: rest =>
    reported (if .changed ∈ (machine sha1).output e op then ((machine sha1).next e op).view op.time else seen)
      ((machine sha1).next e op) rest

/-- Lifetimes were applied, and the view compared, not later than the last operation. -/
def UpToDate (s : Engine × ℕ) : Prop := ∃ applied ≤ s.2, s.1.Current applied

theorem start_spec {e : Engine} (now : ℕ) : (e.start now).1.Current now ∧
    (.changed ∈ (e.start now).2 ↔ (e.start now).1.view now ≠ e.lastView) := by
  obtain ⟨current, _, changed⟩ := tick_spec
    (e := { e with solicits := 0, solicitInterval := Ndp.solicitInterval, solicitAt := some now }) now
    ⟨le_rfl, show Ndp.solicitInterval ≤ maxSolicitInterval by decide⟩
  exact ⟨current, changed⟩

theorem started_upToDate (config : Config) (now : ℕ) : UpToDate (started config now) := by
  rw [started]
  exact ⟨now, le_rfl, (@start_spec (new config) now).1⟩

/-- An operation makes the engine current, unless it was an advertisement that does not decode. -/
theorem next_current {e : Engine} (op : Op) (paced : e.Paced) :
    (machine sha1).step e op = (e, []) ∨ (((machine sha1).next e op).Current op.time ∧
      (.changed ∈ (machine sha1).output e op ↔ ((machine sha1).next e op).view op.time ≠ e.lastView)) := by
  cases op with
  | start now =>
    rw [next_start, output_start]
    exact .inr (start_spec now)
  | tick now =>
    obtain ⟨current, _, changed⟩ := tick_spec now paced
    rw [next_tick, output_tick]
    exact .inr ⟨current, changed⟩
  | receive now source body =>
    rw [next_receive, output_receive]
    cases decoded : RouterAdvert.decode body with
    | none => exact .inl (receive_undecodable sha1 e now source decoded)
    | some ra => exact .inr (receive_spec sha1 now source decoded paced)

theorem new_paced (config : Config) : (new config).Paced :=
  ⟨le_rfl, show Ndp.solicitInterval ≤ maxSolicitInterval by decide⟩

theorem next_paced {e : Engine} (op : Op) (paced : e.Paced) : ((machine sha1).next e op).Paced := by
  rcases next_current sha1 op paced with ignored | ⟨current, _⟩
  · rw [Transducer.next, ignored]
    exact paced
  · exact current.paced

theorem next_upToDate (s : Engine × ℕ) (op : Op) (later : Later s op) (upToDate : UpToDate s) :
    UpToDate ((timed sha1).next s op) := by
  obtain ⟨applied, earlier, current⟩ := upToDate
  rw [timed_next]
  rcases next_current sha1 op current.paced with ignored | ⟨current', _⟩
  · rw [Transducer.next, ignored]
    exact ⟨applied, earlier.trans later.2, current⟩
  · exact ⟨op.time, le_rfl, current'⟩

/-- The recorded view is the one reported last. -/
theorem lastView_eq_reported {e : Engine} (paced : e.Paced) (ops : List Op) :
    ((machine sha1).run e ops).lastView = reported sha1 e.lastView e ops := by
  induction ops generalizing e with
  | nil => rfl
  | cons op rest ih =>
    have recorded : ((machine sha1).next e op).lastView =
        if .changed ∈ (machine sha1).output e op then ((machine sha1).next e op).view op.time
        else e.lastView := by
      rcases next_current sha1 op paced with ignored | ⟨current, changed⟩
      · simp [Transducer.next, Transducer.output, ignored]
      · split
        · exact current.seen
        · next silent =>
          rw [changed, not_not] at silent
          exact current.seen.trans silent
    rw [Transducer.run, reported, ih (next_paced sha1 op paced), recorded]

/-- Up to the deadline the view stays, and a tick is silent. -/
theorem UpToDate.quiet {s : Engine × ℕ} (upToDate : UpToDate s) {later : ℕ} (le : s.2 ≤ later)
    (ahead : Deadline.Ahead later s.1.nextDeadline) :
    s.1.view later = s.1.lastView ∧ s.1.tick later = ({ s.1 with expiredAt := some later }, []) := by
  obtain ⟨applied, earlier, fresh, seen, paced⟩ := upToDate
  have quiet := fresh.quiet ahead
  have same : s.1.view later = s.1.lastView := (quiet.view_eq (earlier.trans le)).trans seen.symm
  refine ⟨same, ?_⟩
  have unsolicited : solicitDue { s.1 with expiredAt := some later } later =
      ({ s.1 with expiredAt := some later }, []) := solicitDue_ahead quiet.soliciting
  rw [tick, fresh.expire_eq (earlier.trans le) quiet, unsolicited]
  exact if_neg (not_not.mpr same)

theorem later_times {s t : Engine × ℕ} {ops : List Op} (path : (timed sha1).Run Punctual s ops t) :
    ∀ op ∈ ops, s.2 ≤ op.time := by
  induction path with
  | nil _ => exact fun _ member => nomatch member
  | cons allowed _ ih =>
    intro op member
    rcases List.mem_cons.mp member with rfl | member
    · exact allowed.1.2
    · exact allowed.1.2.trans (ih op member)

/-- At every instant of a punctual run, the view is the one the engine last recorded. -/
theorem punctual_view {s t : Engine × ℕ} {ops : List Op} (path : (timed sha1).Run Punctual s ops t)
    (upToDate : UpToDate s) {now : ℕ} (le : s.2 ≤ now)
    (covered : now < t.2 ∨ Deadline.Ahead now t.1.nextDeadline) :
    ∃ earlier later current last, ops = earlier ++ later ∧
      (timed sha1).Run Punctual s earlier (current, last) ∧ last ≤ now ∧ (∀ op ∈ later, now < op.time) ∧
      current.view now = current.lastView := by
  induction path with
  | nil s =>
    have ahead := covered.resolve_left (not_lt.mpr le)
    exact ⟨[], [], s.1, s.2, rfl, .nil s, le, (fun _ member => nomatch member), (upToDate.quiet le ahead).1⟩
  | @cons s t op rest allowed tail ih =>
    by_cases past : op.time ≤ now
    · obtain ⟨earlier, later, current, last, rfl, path, before, after, same⟩ :=
        ih (next_upToDate sha1 s op allowed.1 upToDate) past covered
      exact ⟨op :: earlier, later, current, last, rfl, .cons allowed path, before, after, same⟩
    · -- The next operation is still to come, and it does not miss the deadline.
      have ahead : Deadline.Ahead now s.1.nextDeadline := fun due member =>
        lt_of_lt_of_le (not_le.mp past) (allowed.2 due member)
      refine ⟨[], op :: rest, s.1, s.2, rfl, .nil s, le, fun other member => ?_, (upToDate.quiet le ahead).1⟩
      rcases List.mem_cons.mp member with rfl | member
      · exact not_le.mp past
      · exact (not_le.mp past).trans_le (later_times sha1 tail other member)

theorem timed_run {admissible : Engine × ℕ → Op → Prop} {s t : Engine × ℕ} {ops : List Op}
    (path : (timed sha1).Run admissible s ops t) : t.1 = (machine sha1).run s.1 ops := by
  induction path with
  | nil _ => rfl
  | cons _ _ ih => exact ih

/-- The engine's deadlines are exact. After a tick the deadline is strictly later; from any operation
to the deadline the view stays and ticks only move `expiredAt`; and for a caller that keeps the
deadlines the view at every instant is the one reported by the most recent `changed`. -/
theorem deadlines_exact (config : Config) (begun : ℕ) :
    (∀ ops e last, (timed sha1).Run Later (started config begun) ops (e, last) →
      (∀ now, Deadline.Ahead now (e.tick now).1.nextDeadline) ∧
      ∀ now, last ≤ now → Deadline.Ahead now e.nextDeadline →
        e.view now = e.view last ∧ e.tick now = ({ e with expiredAt := some now }, [])) ∧
    ∀ ops e last, (timed sha1).Run Punctual (started config begun) ops (e, last) →
      ∀ now, begun ≤ now → (now < last ∨ Deadline.Ahead now e.nextDeadline) →
        ∃ earlier later current seen, ops = earlier ++ later ∧
          (timed sha1).Run Punctual (started config begun) earlier (current, seen) ∧ seen ≤ now ∧
          (∀ op ∈ later, now < op.time) ∧
          current.view now = reported sha1 .default (new config) (.start begun :: earlier) := by
  have initial := started_upToDate config begun
  refine ⟨fun ops e last path => ?_, fun ops e last path now begins covered => ?_⟩
  · have upToDate : UpToDate (e, last) := path.invariant initial (next_upToDate sha1)
    obtain ⟨_, _, current⟩ := id upToDate
    refine ⟨fun now => (tick_spec now current.paced).2.1, fun now le ahead => ?_⟩
    obtain ⟨same, silent⟩ := upToDate.quiet le ahead
    have before : Deadline.Ahead last e.nextDeadline := fun due member => le.trans_lt (ahead due member)
    exact ⟨same.trans (upToDate.quiet le_rfl before).1.symm, silent⟩
  · obtain ⟨earlier, later, current, seen, split, path, before, after, same⟩ :=
      punctual_view sha1 path initial begins covered
    refine ⟨earlier, later, current, seen, split, path, before, after, same.trans ?_⟩
    have reached : current = (machine sha1).run (started config begun).1 earlier := timed_run sha1 path
    rw [started, ← next_start sha1] at reached
    rw [reached]
    have recorded := lastView_eq_reported sha1 (new_paced config) (.start begun :: earlier)
    rw [Transducer.run] at recorded
    exact recorded

end Runs

end Netd.Model.Ndp.Engine
