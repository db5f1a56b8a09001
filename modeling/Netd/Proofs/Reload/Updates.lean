import Netd.Model.Reload

/-! # Updates that are noticed, and two windows in which they are not

A write is noticed where netd reads the registry after it. Between the read at startup and the arming of
the watch nobody notes a write, and a watch that fails takes its notifications along: it is armed
again without a read. Where the registry says what netd read last at either moment, and only there, netd
holds what the registry says whenever nothing is pending.
-/

namespace Netd.Model

open Policy (Conditions)

variable {Condition : Type} {language : Conditions Condition Facts}

theorem Daemon.reload_config (language : Conditions Condition Facts) (d : Daemon Condition) (fresh : Config)
    (interfaces : List Subject) :
    (d.reload language ⟨.events, some fresh, interfaces⟩).1.config = fresh := by
  change (d.adopt language fresh interfaces).1.config = fresh
  rw [adopt]
  split_ifs with same
  · exact same.symm
  · rfl
  · rfl

theorem Daemon.start_config (config : Config) : (start language config).1.config = config := by
  rw [start]
  cases Policy.build language config.rules config.profiles <;> rfl

namespace System

/-- In the poll with nothing pending, netd holds what the registry says. -/
def Noticed (s : System Condition) : Prop :=
  ∀ d, s.phase = .waiting d → s.pending = some 0 → d.config = s.registry

/-- A watch is armed, at startup or after a failure, only where the registry says what netd read last. -/
def Heeded (s : System Condition) : Move → Prop
  | .arm => ∀ config, s.phase = .loaded config → config = s.registry
  | .rearm => ∀ d, s.phase = .failed d → d.config = s.registry
  | .write _ | .load | .events _ | .nothing | .fail | .read _ => True

/-- A move that is heeded leaves nothing unnoticed. -/
theorem step_noticed {s t : System Condition} {move : Move} (made : s.step language move = some t)
    (heeded : Heeded s move) (noticed : Noticed s) : Noticed t := by
  obtain ⟨registry, pending, phase⟩ := s
  cases move with
  | write value =>
    obtain rfl := Option.some.inj made
    intro d _ quiet
    -- The armed watch has noted the write.
    cases pending <;> simp at quiet
  | load =>
    cases phase with
    | starting =>
      obtain rfl := Option.some.inj made
      intro d waits
      cases waits
    | _ => contradiction
  | arm =>
    cases phase with
    | loaded config =>
      obtain rfl := Option.some.inj made
      intro d waits _
      obtain rfl := Phase.waiting.inj waits
      rw [Daemon.start_config]
      exact heeded config rfl
    | _ => contradiction
  | events count =>
    cases phase with
    | waiting d =>
      cases pending with
      | none => contradiction
      | some n =>
        rw [step] at made
        dsimp only at made
        split_ifs at made
        obtain rfl := Option.some.inj made
        intro d waits
        cases waits
    | _ => contradiction
  | nothing =>
    cases phase with
    | waiting d =>
      obtain rfl := Option.some.inj made
      exact noticed
    | _ => contradiction
  | fail =>
    cases phase with
    | waiting d =>
      obtain rfl := Option.some.inj made
      intro d waits
      cases waits
    | _ => contradiction
  | read interfaces =>
    cases phase with
    | drained d =>
      obtain rfl := Option.some.inj made
      intro d' waits _
      obtain rfl := Phase.waiting.inj waits
      exact Daemon.reload_config language d registry interfaces
    | _ => contradiction
  | rearm =>
    cases phase with
    | failed d =>
      obtain rfl := Option.some.inj made
      intro d' waits _
      obtain rfl := Phase.waiting.inj waits
      exact heeded d rfl
    | _ => contradiction

/-- A watch that was armed while something was unnoticed leaves it so, with nothing pending. -/
theorem heeded_of_noticed {s t : System Condition} {move : Move} (made : s.step language move = some t)
    (noticed : Noticed t) : Heeded s move := by
  obtain ⟨registry, pending, phase⟩ := s
  cases move with
  | arm =>
    rintro config rfl
    obtain rfl := Option.some.inj made
    have held := noticed _ rfl rfl
    rwa [Daemon.start_config] at held
  | rearm =>
    rintro d rfl
    obtain rfl := Option.some.inj made
    exact noticed d rfl rfl
  | _ => trivial

theorem run_append (s : System Condition) (before after : List Move) :
    s.run language (before ++ after) = (s.run language before).bind fun t => t.run language after :=
  List.foldlM_append

theorem run_concat {s t : System Condition} {before : List Move} {move : Move} :
    s.run language (before ++ [move]) = some t ↔
      ∃ middle, s.run language before = some middle ∧ middle.step language move = some t := by
  rw [run_append, Option.bind_eq_some_iff]
  simp [run]

/-- In a run, netd holds what the registry says whenever it waits with nothing pending, if and only if every
watch is armed where the registry says what netd read last. -/
theorem noticed_iff_heeded {registry : Config} {moves : List Move} {last : System Condition}
    (ran : (initial registry).run language moves = some last) :
    (∀ before after s, moves = before ++ after → (initial registry).run language before = some s → Noticed s) ↔
      ∀ before move after s, moves = before ++ move :: after → (initial registry).run language before = some s →
        Heeded s move := by
  constructor
  · rintro noticed before move after s rfl reached
    obtain ⟨t, ran, -⟩ : ∃ t, (initial registry).run language (before ++ [move]) = some t ∧
        t.run language after = some last := by
      rw [List.append_cons, run_append] at ran
      exact Option.bind_eq_some_iff.mp ran
    obtain ⟨middle, same, made⟩ := run_concat.mp ran
    obtain rfl := Option.some.inj (reached.symm.trans same)
    exact heeded_of_noticed made (noticed (before ++ [move]) after t (List.append_cons ..) ran)
  · intro heeded before
    induction before using List.reverseRecOn with
    | nil =>
      rintro after s - reached
      obtain rfl := Option.some.inj reached
      intro d waits
      cases waits
    | append_singleton before move ih =>
      rintro after s rfl reached
      obtain ⟨middle, came, made⟩ := run_concat.mp reached
      have split : before ++ [move] ++ after = before ++ move :: after := (List.append_cons ..).symm
      exact step_noticed made (heeded before move after middle split came) (ih (move :: after) middle split came)

/-- A language without conditions. -/
def anyInterface : Conditions Unit Facts where
  parse path key _ := .error (.unknownFact path key)
  isLiveTime _ := false
  holds _ _ := true

/-- A configuration that only names the machine. -/
def named (hostname : String) : Config := { hostname := some hostname }

/-- A name comes and goes before the watch is armed, and comes again while netd waits. -/
def renames : List Move :=
  [.load, .write (named "a"), .write {}, .arm, .write (named "a"), .events 1, .read []]

theorem named_noticed :
    ∃ s d, (initial {}).run anyInterface renames = some s ∧ s.phase = .waiting d ∧ s.pending = some 0 ∧
      d.config = s.registry := by
  have heeded : ∀ before move after s, renames = before ++ move :: after →
      (initial {}).run anyInterface before = some s → Heeded s move := by
    intro before move after s split reached
    cases move with
    | arm =>
      obtain rfl : before = [.load, .write (named "a"), .write {}] := by
        rcases before with _ | ⟨_, _ | ⟨_, _ | ⟨_, _ | ⟨_, before⟩⟩⟩⟩ <;> simp_all [renames]
        -- There is no second arming behind the first.
        have again : Move.arm ∈ [Move.write (named "a"), .events 1, .read []] := by
          rw [split.2.2.2.2]
          simp
        simp at again
      obtain rfl := Option.some.inj reached
      rintro config same
      exact (Phase.loaded.inj same).symm
    | rearm =>
      have member : Move.rearm ∈ renames := by
        rw [split]
        simp
      simp [renames] at member
    | _ => trivial
  exact ⟨_, _, rfl, rfl, rfl,
    (noticed_iff_heeded rfl).mpr heeded renames [] _ (List.append_nil _).symm rfl _ rfl rfl⟩

/-- A write before the first watch is armed, and one whose notification a failed watch took along. -/
theorem updates_lost :
    (∃ s d, (initial {}).run anyInterface [.load, .write (named "a"), .arm] = some s ∧
        s.phase = .waiting d ∧ s.pending = some 0 ∧ d.config ≠ s.registry) ∧
      ∃ s d, (initial {}).run anyInterface [.load, .arm, .write (named "a"), .fail, .rearm] = some s ∧
        s.phase = .waiting d ∧ s.pending = some 0 ∧ d.config ≠ s.registry := by
  refine ⟨⟨_, _, rfl, rfl, rfl, ?_⟩, ⟨_, _, rfl, rfl, rfl, ?_⟩⟩
  · exact fun same => nomatch congrArg Config.hostname same
  · exact fun same => nomatch congrArg Config.hostname same

end System

end Netd.Model
