import Mathlib.Data.List.ReduceOption
import Netd.Model.Reload

/-! # Generations are atomic

A reload either leaves the policy whole or replaces it whole. The configuration is replaced even where
its generation is refused, and a later read with the same rules and profiles builds nothing: what keeps
policy, refusal and configuration in step is that the generation last looked at is the one that the
held configuration describes.
-/

namespace Netd.Model

open Policy (Conditions PolicyError build)

variable {Condition : Type} {language : Conditions Condition Facts}

/-- The generation, if it was taken. -/
def Taking.generation : Taking Condition → Option (Policy Condition)
  | taken policy => some policy
  | refused _ => none

/-- The last generation that a log says was taken. -/
def lastTaken (log : List (Taking Condition)) : Option (Policy Condition) :=
  (log.filterMap Taking.generation).getLast?

theorem lastTaken_cons (taking : Taking Condition) (log : List (Taking Condition)) :
    lastTaken (taking :: log) = (lastTaken log).or taking.generation := by
  rw [lastTaken, lastTaken, List.filterMap_cons]
  cases taking.generation with
  | none => simp
  | some policy => simp [List.getLast?_cons, Option.or_some]

/-- No two rules tie on a present interface. -/
theorem Policy.tie_eq_none {policy : Policy Condition} {interfaces : List Subject} :
    policy.tie language interfaces = none ↔
      ∀ i ∈ interfaces, i.link.loopback = false → (policy.judge language i.facts).conflict = false := by
  rw [tie, List.findSome?_eq_none_iff]
  constructor
  · intro apart i member real
    have single := apart i (List.mem_filter.mpr ⟨member, by simp [real]⟩)
    simpa using single
  · intro apart i member
    obtain ⟨member, real⟩ := List.mem_filter.mp member
    simp [apart i member (by simpa using real)]

namespace Daemon

/-! ## One reload -/

/-- Everything that a reload can do. -/
theorem reload_cases (language : Conditions Condition Facts) (d : Daemon Condition) (r : Reload) :
    ((machine language).next d r = d ∧ (machine language).output d r = none) ∨
      ∃ fresh, r.watch = .events ∧ r.read = some fresh ∧
        ((fresh.rules = d.config.rules ∧ fresh.profiles = d.config.profiles ∧
            (machine language).next d r = { d with config := fresh, control := fresh.controlSecurity } ∧
            (machine language).output d r = none) ∨
          (∃ policy, build language fresh.rules fresh.profiles = .ok policy ∧
            policy.tie language r.interfaces = none ∧
            (machine language).next d r = ⟨fresh, policy, none, fresh.controlSecurity⟩ ∧
            (machine language).output d r = some (.taken policy)) ∨
          ∃ why, (machine language).next d r = ⟨fresh, d.policy, some why, fresh.controlSecurity⟩ ∧
            (machine language).output d r = some (.refused why)) := by
  have next : (machine language).next d r = (d.reload language r).1 := rfl
  have output : (machine language).output d r = (d.reload language r).2.1 := rfl
  rw [next, output]
  cases watch : r.watch with
  | nothing => exact .inl (by simp [reload, watch])
  | failed => exact .inl (by simp [reload, watch])
  | events =>
    cases read : r.read with
    | none => exact .inl (by simp [reload, watch, read])
    | some fresh =>
      have adopted : d.reload language r =
          ((d.adopt language fresh r.interfaces).1, (d.adopt language fresh r.interfaces).2, true) := by
        simp [reload, watch, read]
      rw [adopted, adopt]
      split_ifs with same changed
      · exact .inl ⟨rfl, rfl⟩
      · refine .inr ⟨fresh, rfl, rfl, .inr ?_⟩
        rw [takeGeneration]
        cases built : build language fresh.rules fresh.profiles with
        | error e => exact .inr ⟨_, rfl, rfl⟩
        | ok policy =>
          cases tie : policy.tie language r.interfaces with
          | some why => exact .inr ⟨why, by simp [tie], by simp [tie]⟩
          | none => exact .inl ⟨policy, rfl, tie, by simp [tie], by simp [tie]⟩
      · obtain ⟨rules, profiles⟩ := not_or.mp changed
        exact .inr ⟨fresh, rfl, rfl, .inl ⟨not_not.mp rules, not_not.mp profiles, rfl, rfl⟩⟩

/-- The policy, unless its rules were refused, is what the held configuration builds. -/
def Current (language : Conditions Condition Facts) (d : Daemon Condition) : Prop :=
  d.refusal = none → build language d.config.rules d.config.profiles = .ok d.policy

theorem start_current (config : Config) : Current language (start language config).1 := by
  rw [start]
  cases built : build language config.rules config.profiles with
  | ok policy => exact fun _ => built
  | error e => exact nofun

theorem next_current (d : Daemon Condition) (r : Reload) (current : Current language d) :
    Current language ((machine language).next d r) := by
  obtain ⟨next, -⟩ | ⟨fresh, -, -, ⟨rules, profiles, next, -⟩ | ⟨policy, built, -, next, -⟩ | ⟨why, next, -⟩⟩ :=
    reload_cases language d r
  · rw [next]
    exact current
  · rw [next]
    intro accepted
    change build language fresh.rules fresh.profiles = .ok d.policy
    rw [rules, profiles]
    exact current accepted
  · rw [next]
    exact fun _ => built
  · rw [next]
    exact nofun

theorem next_policy (d : Daemon Condition) (r : Reload) :
    ((machine language).next d r).policy =
      (((machine language).output d r).bind Taking.generation).getD d.policy := by
  obtain ⟨next, output⟩ | ⟨fresh, -, -, ⟨-, -, next, output⟩ | ⟨policy, -, -, next, output⟩ | ⟨why, next, output⟩⟩ :=
    reload_cases language d r
  all_goals
    rw [next, output]
    rfl

/-! ## Reload after reload -/

/-- What was logged about generations since netd started. -/
def logAfter (language : Conditions Condition Facts) (config : Config) (reloads : List Reload) :
    List (Taking Condition) :=
  (start language config).2 :: ((machine language).outputs (start language config).1 reloads).reduceOption

theorem run_policy (d : Daemon Condition) (reloads : List Reload) :
    ((machine language).run d reloads).policy =
      (lastTaken ((machine language).outputs d reloads).reduceOption).getD d.policy := by
  induction reloads generalizing d with
  | nil => rfl
  | cons r rest ih =>
    rw [Transducer.run, ih, Transducer.outputs, next_policy]
    cases out : (machine language).output d r with
    | none => rw [List.reduceOption_cons_of_none]; rfl
    | some taking =>
      rw [List.reduceOption_cons_of_some, lastTaken_cons]
      cases lastTaken ((machine language).outputs ((machine language).next d r) rest).reduceOption <;> rfl

/-- A generation that builds is taken unless rules tie, which is then why it is refused. -/
theorem takeGeneration_ok (d : Daemon Condition) {fresh : Config} {policy : Policy Condition}
    (built : build language fresh.rules fresh.profiles = .ok policy) (interfaces : List Subject) :
    (d.takeGeneration language fresh interfaces).1 =
      { d with
        policy := if (policy.tie language interfaces).isNone then policy else d.policy
        refusal := policy.tie language interfaces } := by
  rw [takeGeneration, built]
  dsimp only
  cases policy.tie language interfaces with
  | none => rfl
  | some why => rfl

theorem takeGeneration_error (d : Daemon Condition) {fresh : Config} {e : PolicyError}
    (failed : build language fresh.rules fresh.profiles = .error e) (interfaces : List Subject) :
    (d.takeGeneration language fresh interfaces).1 = { d with refusal := some (.build e) } := by
  rw [takeGeneration, failed]

/-- New rules or profiles make a generation, and the configuration is replaced whatever becomes of it. -/
theorem next_news {d : Daemon Condition} {r : Reload} {fresh : Config} (watched : r.watch = .events)
    (read : r.read = some fresh) (news : fresh.rules ≠ d.config.rules ∨ fresh.profiles ≠ d.config.profiles) :
    (machine language).next d r =
      { (d.takeGeneration language fresh r.interfaces).1 with config := fresh, control := fresh.controlSecurity } := by
  have other : fresh ≠ d.config := by
    rintro rfl
    simp at news
  change (d.reload language r).1 = _
  simp [reload, watched, read, adopt, other, news]

/-- Whenever nothing is refused the policy is what the configuration builds, and it always is the last
generation taken; a read that fails changes nothing; a generation that is taken ties on no interface there
is; and new rules or profiles are taken where they build and none tie, and refused otherwise. -/
theorem generations_atomic (language : Conditions Condition Facts) (config : Config) (reloads : List Reload) :
    let d := (machine language).run (start language config).1 reloads
    (d.refusal = none → build language d.config.rules d.config.profiles = .ok d.policy) ∧
      (d.refusal ≠ none → d.policy = (lastTaken (logAfter language config reloads)).getD {}) ∧
      (∀ r, (r.read = none → (machine language).next d r = d) ∧
        ∀ policy, (machine language).output d r = some (.taken policy) →
          ((machine language).next d r).policy = policy ∧
            ∀ i ∈ r.interfaces, i.link.loopback = false → (policy.judge language i.facts).conflict = false) ∧
      ∀ r fresh, r.watch = .events → r.read = some fresh →
        fresh.rules ≠ d.config.rules ∨ fresh.profiles ≠ d.config.profiles →
          ((machine language).next d r).config = fresh ∧
            (∀ policy, build language fresh.rules fresh.profiles = .ok policy →
              ((machine language).next d r).refusal = policy.tie language r.interfaces ∧
                ((machine language).next d r).policy =
                  if (policy.tie language r.interfaces).isNone then policy else d.policy) ∧
            ∀ e, build language fresh.rules fresh.profiles = .error e →
              ((machine language).next d r).refusal = some (.build e) ∧
                ((machine language).next d r).policy = d.policy := by
  intro d
  refine ⟨?_, ?_, fun r => ⟨?_, ?_⟩, fun r fresh watched read news => ?_⟩
  · exact (machine language).run_invariant next_current (start_current config) reloads
  · intro _
    have first : (start language config).1.policy = ((start language config).2.generation).getD {} := by
      rw [start]
      cases build language config.rules config.profiles <;> rfl
    rw [logAfter, lastTaken_cons, run_policy, first]
    cases lastTaken ((machine language).outputs (start language config).1 reloads).reduceOption <;> rfl
  · intro failed
    obtain ⟨next, -⟩ | ⟨fresh, -, read, -⟩ := reload_cases language d r
    · exact next
    · rw [failed] at read
      contradiction
  · intro policy output
    obtain ⟨-, out⟩ | ⟨fresh, -, -, ⟨-, -, -, out⟩ | ⟨taken, -, apart, next, out⟩ | ⟨why, -, out⟩⟩ :=
      reload_cases language d r
    · rw [out] at output
      contradiction
    · rw [out] at output
      contradiction
    · rw [out] at output
      obtain rfl := Taking.taken.inj (Option.some.inj output)
      rw [next]
      exact ⟨rfl, Policy.tie_eq_none.mp apart⟩
    · rw [out] at output
      cases Option.some.inj output
  · rw [next_news watched read news]
    refine ⟨rfl, fun policy built => ?_, fun e failed => ?_⟩
    · rw [takeGeneration_ok d built]
      exact ⟨rfl, rfl⟩
    · rw [takeGeneration_error d failed]
      exact ⟨rfl, rfl⟩

end Daemon

end Netd.Model
