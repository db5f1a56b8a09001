import Netd.Proofs.Policy.Joins
import Netd.Proofs.Profile.Inheritance

/-! # A generation joins only what it may

Of the two halves of the `Enabled` law the executor's is applied before the build: a join of a disabled
profile is handed on as an abstention. With the lookup at the end of the build, a join that the
forest arrives at is of an enabled profile of the generation. The exception is a tie: the forest
then names the first of the joins, and netd answers with none of them.
-/

namespace Netd.Model.Policy

variable {Condition Snapshot : Type} {language : Conditions Condition Snapshot}

/-- What a generation that builds was built from. -/
theorem build_ok {rules profiles : Option RawKey} {policy : Policy Condition}
    (built : build language rules profiles = .ok policy) :
    (∀ path p, policy.profiles.lookup path = some p → path = toAsciiLowercase p.path) ∧
      resolveProfiles profiles = .ok policy.profiles ∧ (rules = none → policy.forest = none) ∧
      ∀ root, rules = some root → buildRulesOver language policy.profiles root = .ok policy := by
  rw [build] at built
  obtain ⟨found, resolved, built⟩ := Fallible.bind_eq_ok.mp built
  have own : ∀ path p, found.lookup path = some p → path = toAsciiLowercase p.path := by
    cases profiles with
    | none =>
      obtain rfl := Except.ok.inj resolved
      intro path p known
      rw [SortedMap.lookup_empty] at known
      contradiction
    | some root =>
      rw [resolveProfiles] at resolved
      cases read : resolve root with
      | error e =>
        rw [read] at resolved
        contradiction
      | ok profiles =>
        rw [read] at resolved
        obtain rfl := Except.ok.inj resolved
        exact fun path p known => resolve_path read known
  cases rules with
  | none =>
    obtain rfl := Except.ok.inj built
    exact ⟨own, resolved, fun _ => rfl, nofun⟩
  | some root =>
    have same : policy.profiles = found := by
      dsimp only at built
      rw [buildRulesOver] at built
      obtain ⟨lowered, -, built⟩ := Fallible.bind_eq_ok.mp built
      obtain ⟨⟨forest, lints⟩, -, built⟩ := Fallible.bind_eq_ok.mp built
      dsimp only at built
      split at built
      · contradiction
      · exact Except.ok.inj built ▸ rfl
    rw [same]
    refine ⟨own, resolved, nofun, ?_⟩
    rintro _ ⟨⟩
    exact built

theorem buildRulesOver_ok {profiles : Profiles} {root : RawKey} {policy : Policy Condition}
    (built : buildRulesOver language profiles root = .ok policy) :
    ∃ lowered forest after, lowerAll profiles "" root.children = .ok lowered ∧
      buildRules language "" 0 {} lowered = .ok (forest.roots, after) ∧ forest.profiles = after.profiles ∧
      policy.forest = some forest ∧
      ∀ path ∈ forest.profiles, ∃ p, profiles.lookup (toAsciiLowercase path) = some p := by
  rw [buildRulesOver] at built
  obtain ⟨lowered, handed, built⟩ := Fallible.bind_eq_ok.mp built
  obtain ⟨⟨forest, lints⟩, whole, built⟩ := Fallible.bind_eq_ok.mp built
  dsimp only at built
  split at built
  · contradiction
  · rename_i unknown
    obtain rfl := Except.ok.inj built
    cases run : buildForest language lowered with
    | error e =>
      rw [run] at whole
      contradiction
    | ok out =>
      rw [run] at whole
      obtain rfl := Except.ok.inj whole
      rw [buildForest] at run
      obtain ⟨⟨roots, after⟩, rules, run⟩ := Fallible.bind_eq_ok.mp run
      obtain ⟨rfl, -⟩ := Prod.mk.inj (Except.ok.inj run)
      refine ⟨lowered, _, after, handed, rules, rfl, rfl, fun path member => ?_⟩
      have known := List.find?_eq_none.mp unknown path member
      exact Option.ne_none_iff_exists'.mp (by simpa using known)

/-- A join that the forest arrives at is of an enabled profile, written at the rule it is attributed to. -/
theorem evaluate_target {rules profiles : Option RawKey} {policy : Policy Condition}
    (built : build language rules profiles = .ok policy) {forest : Forest Condition}
    (there : policy.forest = some forest) {snapshot : Snapshot} {index : ℕ}
    (joined : (evaluate language forest snapshot).verdict = .join index) :
    ∃ target p, forest.profiles[index]? = some target ∧
      policy.profiles.lookup (toAsciiLowercase target) = some p ∧ p.enabled = true ∧
      toAsciiLowercase p.path = toAsciiLowercase target ∧
      ∃ root key, rules = some root ∧
        keys.Reached "" root.children (evaluate language forest snapshot).attributedTo key ∧
        Writes policy.profiles key (toAsciiLowercase target) := by
  obtain ⟨own, -, empty, whole⟩ := build_ok built
  obtain ⟨-, rule, reached, action⟩ := evaluate_join joined
  cases rules with
  | none =>
    rw [empty rfl] at there
    contradiction
  | some root =>
    obtain ⟨lowered, other, after, handed, run, table, same, known⟩ := buildRulesOver_ok (whole root rfl)
    obtain rfl := Option.some.inj (same.symm.trans there)
    have each := buildRules_from run List.prefix_rfl
    obtain ⟨input, found, from_⟩ := reached.simulate (builtFrom_simulation language after.profiles) each
    obtain ⟨key, written, path, lower⟩ := found.simulate (lower_simulation policy.profiles) (lowerAll_from handed)
    obtain ⟨target, entry, named⟩ := from_.joins index action
    rw [← table] at entry
    obtain ⟨p, lookup⟩ := known target (List.mem_of_getElem? entry)
    have writes := writes_of_namedIn lower named
    obtain ⟨-, -, -, -, -, enabled⟩ := writes
    exact ⟨target, p, entry, lookup, enabled p lookup, (own _ p lookup).symm, root, key, rfl, written,
      writes_of_namedIn lower named⟩

/-! ## Abstention -/

/-- An action, and the same or, for a join of a disabled profile, an abstention in its place. -/
def AbstainsItem (profiles : Profiles) (item other : String) : Prop :=
  other = item ∨ (other = "NULL" ∧ ∃ profile p, parseAction item = .ok (.join profile) ∧
    profiles.lookup (toAsciiLowercase profile) = some p ∧ p.enabled = false)

/-- A value, and the same or, for actions, one in which joins of disabled profiles abstain. -/
def AbstainsValue (profiles : Profiles) (entry other : String × RawValue) : Prop :=
  other = entry ∨ ∃ items others, entry = ("Actions", .list items) ∧ other = ("Actions", .list others) ∧
    List.Forall₂ (AbstainsItem profiles) items others

/-- Rules that differ only in that joins of disabled profiles abstain in the second, at any depth. -/
inductive Abstains (profiles : Profiles) : RawKey → RawKey → Prop
  | mk {name : String} {values others : List (String × RawValue)} {children below : List RawKey}
      (own : List.Forall₂ (AbstainsValue profiles) values others)
      (deeper : List.Forall₂ (Abstains profiles) children below) :
      Abstains profiles ⟨name, values, children⟩ ⟨name, others, below⟩

/-- A join of a disabled profile is handed on as the abstention it is replaced by. -/
theorem lowerItem_abstains {profiles : Profiles} {item other : String} (abstains : AbstainsItem profiles item other) :
    lowerItem profiles true other = lowerItem profiles true item := by
  obtain rfl | ⟨rfl, profile, p, parsed, found, off⟩ := abstains
  · rfl
  · have target := (joinTarget_of_parseAction parsed _).mpr ⟨profile, rfl, rfl⟩
    have null : lowerItem profiles true "NULL" = "NULL" := by
      have none : joinTarget "NULL" = none := by decide +kernel
      rw [lowerItem, none]
    rw [null, lowerItem, target]
    simp [found, off]

theorem lowerValue_abstains {profiles : Profiles} {rule : String} {entry other : String × RawValue}
    (abstains : AbstainsValue profiles entry other) :
    lowerValue profiles rule other = lowerValue profiles rule entry := by
  obtain rfl | ⟨items, others, rfl, rfl, each⟩ := abstains
  · rfl
  · have actions : eqIgnoreAsciiCase "Actions" "Actions" = true := by decide +kernel
    have same : others.map (lowerItem profiles true) = items.map (lowerItem profiles true) := by
      induction each with
      | nil => rfl
      | cons first _ ih => rw [List.map_cons, List.map_cons, ih, lowerItem_abstains first]
    have texts := congrArg (List.map RegValue.str) same
    rw [List.map_map, List.map_map] at texts
    simp only [lowerValue, actions]
    exact congrArg (fun items => Except.ok ("Actions", RegValue.list items)) texts

theorem mapM_lowerValue_abstains {profiles : Profiles} {rule : String} {values others : List (String × RawValue)}
    (abstains : List.Forall₂ (AbstainsValue profiles) values others) :
    others.mapM (lowerValue profiles rule) = values.mapM (lowerValue profiles rule) := by
  induction abstains with
  | nil => rfl
  | cons first _ ih => rw [List.mapM_cons, List.mapM_cons, ih, lowerValue_abstains first]

theorem lowerAll_abstains {profiles : Profiles} {path : String} {keys others : List RawKey}
    (each : ∀ key ∈ keys, ∀ other, Abstains profiles key other → lower profiles path other = lower profiles path key)
    (abstains : List.Forall₂ (Abstains profiles) keys others) :
    lowerAll profiles path others = lowerAll profiles path keys := by
  induction abstains with
  | nil => rfl
  | cons first _ ih =>
    obtain ⟨one, each⟩ := List.forall_mem_cons.mp each
    rw [lowerAll, lowerAll, ih each, one _ first]

theorem lower_abstains {profiles : Profiles} (key : RawKey) {path : String} {other : RawKey}
    (abstains : Abstains profiles key other) : lower profiles path other = lower profiles path key := by
  induction key using RawKey.induction generalizing path other with
  | step key ih =>
    obtain ⟨own, deeper⟩ := abstains
    rw [lower, lower, mapM_lowerValue_abstains own]
    rw [lowerAll_abstains (fun key member other abstains => ih key member abstains) deeper]

/-- Rules in which joins of disabled profiles abstain build the same generation. -/
theorem build_abstains {root other : RawKey} {profiles : Option RawKey} {policy : Policy Condition}
    (built : build language (some root) profiles = .ok policy)
    (abstains : List.Forall₂ (Abstains policy.profiles) root.children other.children) :
    build language (some other) profiles = .ok policy := by
  obtain ⟨-, resolved, -, whole⟩ := build_ok built
  have same : buildRulesOver language policy.profiles other = buildRulesOver language policy.profiles root := by
    rw [buildRulesOver, buildRulesOver]
    rw [lowerAll_abstains (fun key _ other abstains => lower_abstains key abstains) abstains]
  rw [build, resolved]
  exact same.trans (whole root rfl)

/-! ## Judgments -/

theorem judge_eq {policy : Policy Condition} {forest : Forest Condition} (there : policy.forest = some forest)
    (snapshot : Snapshot) :
    policy.judge language snapshot =
      if (evaluate language forest snapshot).conflict then
        ⟨.ignore, " vs ".intercalate (rivals (evaluate language forest snapshot).candidates), false, true⟩
      else ⟨policy.outcomeOf forest (evaluate language forest snapshot).verdict,
        (evaluate language forest snapshot).attributedTo, (evaluate language forest snapshot).backstop, false⟩ := by
  rw [judge, there]

/-- Where the forest arrives at a join without a tie, the interface joins the profile that the rule names,
which is enabled; where joins tie, it joins nothing and says so. Rules in which joins of disabled
profiles abstain make the same generation. -/
theorem generation_joins_enabled {rules profiles : Option RawKey} {policy : Policy Condition}
    (built : build language rules profiles = .ok policy) :
    (∀ forest snapshot index, policy.forest = some forest →
      (evaluate language forest snapshot).verdict = .join index →
      if (evaluate language forest snapshot).conflict then
        (policy.judge language snapshot).outcome = .ignore ∧ (policy.judge language snapshot).conflict = true
      else
        ∃ target p, forest.profiles[index]? = some target ∧ toAsciiLowercase p.path = toAsciiLowercase target ∧
          policy.profiles.lookup (toAsciiLowercase target) = some p ∧ p.enabled = true ∧
          policy.judge language snapshot = ⟨.join p, (evaluate language forest snapshot).attributedTo, false, false⟩ ∧
          ∃ root key items item, rules = some root ∧
            keys.Reached "" root.children (evaluate language forest snapshot).attributedTo key ∧
            ("Actions", .list items) ∈ key.values ∧ item ∈ items ∧
            joinTarget item = some (toAsciiLowercase p.path)) ∧
      ∀ root other, rules = some root → List.Forall₂ (Abstains policy.profiles) root.children other.children →
        build language (some other) profiles = .ok policy := by
  constructor
  · intro forest snapshot index there joined
    obtain ⟨target, p, entry, found, enabled, path, root, key, rfl, reached, writes⟩ :=
      evaluate_target built there joined
    obtain ⟨items, item, actions, inside, cut, -⟩ := writes
    split_ifs with conflict
    · rw [judge_eq there, if_pos conflict]
      exact ⟨rfl, rfl⟩
    · refine ⟨target, p, entry, path, found, enabled, ?_, root, key, items, item, rfl, reached, actions, inside, ?_⟩
      · rw [judge_eq there, if_neg conflict, (evaluate_join joined).1, joined, outcomeOf, entry, Option.bind_some,
          found]
      · rw [path, cut]
  · rintro root other rfl abstains
    exact build_abstains built abstains

/-- A language without conditions. -/
def unconditional : Conditions Unit Unit where
  parse path key _ := .error (.unknownFact path key)
  isLiveTime _ := false
  holds _ _ := true

/-- A rule that takes these actions. -/
def ruleKey (name : String) (actions : List String) (children : List RawKey) : RawKey :=
  ⟨name, [("Actions", .list actions)], children⟩

/-- Two profiles of which the second is disabled, or not. -/
def twoProfiles (second : U64) : RawKey := ⟨"Profiles", [], [⟨"a", [], []⟩, ⟨"b", [("Enabled", .int second)], []⟩]⟩

/-- What the forest makes of some rules, and whether netd joins, if they build. -/
def verdictAndJoin (rules profiles : RawKey) : Option (Verdict × Bool) :=
  match build unconditional (some rules) (some profiles) with
  | .ok policy => policy.forest.map fun forest =>
      ((evaluate unconditional forest ()).verdict, (policy.judge unconditional ()).outcome.profile.isSome)
  | .error _ => none

theorem verdictAndJoin_eq {rules profiles : RawKey} {verdict : Verdict} {join : Bool}
    (made : verdictAndJoin rules profiles = some (verdict, join)) :
    ∃ policy forest, build unconditional (some rules) (some profiles) = .ok policy ∧ policy.forest = some forest ∧
      (evaluate unconditional forest ()).verdict = verdict ∧
      (policy.judge unconditional ()).outcome.profile.isSome = join := by
  rw [verdictAndJoin] at made
  cases built : build unconditional (some rules) (some profiles) with
  | error e =>
    rw [built] at made
    contradiction
  | ok policy =>
    rw [built] at made
    obtain ⟨forest, there, same⟩ := Option.map_eq_some_iff.mp made
    obtain ⟨rfl, rfl⟩ := Prod.mk.inj same
    exact ⟨policy, forest, rfl, there, rfl, rfl⟩

/-- A rule that joins an enabled profile, with an exception that takes one action. -/
def withException (action : String) : RawKey :=
  ⟨"Interface", [], [ruleKey "r" ["JOIN(a)"] [ruleKey "s" [action] []]]⟩

theorem exception_abstains {policy : Policy Unit}
    (built : build unconditional (some (withException "join( B )")) (some (twoProfiles 0)) = .ok policy) :
    List.Forall₂ (Abstains policy.profiles) (withException "join( B )").children (withException "NULL").children := by
  have item : AbstainsItem policy.profiles "join( B )" "NULL" := by
    obtain ⟨-, resolved, -⟩ := build_ok built
    have parsed : parseAction "join( B )" = .ok (.join "B") := by
      have text : (match parseAction "join( B )" with
        | .ok (.join profile) => profile == "B"
        | _ => false) = true := by decide +kernel
      split at text
      · rename_i profile parsed
        rw [parsed, beq_iff_eq.mp text]
      · contradiction
    have off : (match resolveProfiles (some (twoProfiles 0)) with
      | .ok profiles => (profiles.lookup (toAsciiLowercase "B")).map Profile.enabled == some false
      | .error _ => false) = true := by decide +kernel
    rw [resolved] at off
    obtain ⟨p, found, disabled⟩ := Option.map_eq_some_iff.mp (beq_iff_eq.mp off)
    exact .inr ⟨rfl, "B", p, parsed, found, disabled⟩
  have none : List.Forall₂ (Abstains policy.profiles) [] [] := .nil
  have inner : Abstains policy.profiles (ruleKey "s" ["join( B )"] []) (ruleKey "s" ["NULL"] []) :=
    .mk (.cons (.inr ⟨_, _, rfl, rfl, .cons item .nil⟩) .nil) none
  exact .cons (.mk (.cons (.inl rfl) .nil) (.cons inner none)) none

/-- The exception names a disabled profile, so the rule above it speaks. -/
theorem exception_joined :
    ∃ policy forest p,
      build unconditional (some (withException "join( B )")) (some (twoProfiles 0)) = .ok policy ∧
      policy.forest = some forest ∧ (evaluate unconditional forest ()).verdict = .join 0 ∧ p.enabled = true ∧
      (policy.judge unconditional ()).outcome = .join p ∧
      build unconditional (some (withException "NULL")) (some (twoProfiles 0)) = .ok policy := by
  have made : verdictAndJoin (withException "join( B )") (twoProfiles 0) = some (.join 0, true) := by
    decide +kernel
  obtain ⟨policy, forest, built, there, verdict, joined⟩ := verdictAndJoin_eq made
  obtain ⟨join, abstain⟩ := generation_joins_enabled built
  have same := abstain _ (withException "NULL") rfl (exception_abstains built)
  have cases := join forest () 0 there verdict
  split_ifs at cases
  · rw [cases.1] at joined
    contradiction
  · obtain ⟨target, p, -, -, -, enabled, judged, -⟩ := cases
    exact ⟨policy, forest, p, built, there, verdict, enabled, by rw [judged], same⟩

/-- Two rules that join different profiles at the same priority: the forest names the first, netd joins neither. -/
theorem tie_not_joined :
    ∃ rules profiles policy forest, build unconditional (some rules) (some profiles) = .ok policy ∧
      policy.forest = some forest ∧ (evaluate unconditional forest ()).verdict = .join 0 ∧
      ¬∃ p, (policy.judge unconditional ()).outcome = .join p := by
  have made : verdictAndJoin ⟨"Interface", [], [ruleKey "r" ["JOIN(a)"] [], ruleKey "s" ["JOIN(b)"] []]⟩
      (twoProfiles 1) = some (.join 0, false) := by decide +kernel
  obtain ⟨policy, forest, built, there, verdict, left⟩ := verdictAndJoin_eq made
  refine ⟨_, _, policy, forest, built, there, verdict, ?_⟩
  rintro ⟨p, joined⟩
  rw [joined] at left
  contradiction

end Netd.Model.Policy
