import Netd.Math.Rose
import Netd.Proofs.Policy.Targets

/-! # What a generation joins

A verdict of the forest is one that some rule yields, and a join that a rule yields stands for a path
that one of its actions names, written at the same place of the registry. Lowering has taken out
every action that names a disabled profile, and the build has looked up the rest.
-/

namespace Netd.Model.Policy

variable {Condition Snapshot : Type} {language : Conditions Condition Snapshot}

/-- Rules by their paths, as they are read, handed on and built. -/
def keys : Rose RawKey String := ⟨RawKey.children, fun path key => joinPath path key.name⟩

def inputs : Rose RuleInput String := ⟨RuleInput.children, fun path input => joinPath path input.name⟩

def rules : Rose (Rule Condition) String := ⟨Rule.children, fun path rule => joinPath path rule.name⟩

/-! ## What is said -/

/-- A verdict that a rule yields is one of its own. -/
theorem mem_of_resolveRule {rule : Rule Condition} {verdict : Verdict} (yielded : resolveRule rule = some verdict) :
    .verdict verdict ∈ rule.actions := by
  have fold (actions : List Action) (start : Option Verdict) (yielded : actions.foldl resolveAction start = some verdict) :
      start = some verdict ∨ .verdict verdict ∈ actions := by
    induction actions generalizing start with
    | nil => exact .inl yielded
    | cons action rest ih =>
      obtain first | later := ih _ yielded
      · cases action with
        | verdict found =>
          cases start with
          | none =>
            obtain rfl := Option.some.inj first
            exact .inr List.mem_cons_self
          | some current =>
            have either : current.strictest found = verdict := Option.some.inj first
            rw [Verdict.strictest] at either
            split_ifs at either
            · subst either
              exact .inr List.mem_cons_self
            · subst either
              exact .inl rfl
        | _ => exact .inl first
      · exact .inr (List.mem_cons_of_mem _ later)
  obtain none | member := fold _ _ yielded
  · contradiction
  · exact member

/-- Whatever a rule at a path yields is as wanted. -/
def Yields (wanted : VerdictCandidate → Prop) (path : String) (rule : Rule Condition) : Prop :=
  ∀ verdict, resolveRule rule = some verdict → wanted ⟨verdict, rule.priority, path⟩

/-- Whatever was said is as wanted. -/
def Said (wanted : VerdictCandidate → Prop) (speech : Speech) : Prop := ∀ c ∈ speech.candidates, wanted c

theorem trigger_said {wanted : VerdictCandidate → Prop} {done : WalkFrame Condition}
    {ancestors : List (WalkFrame Condition)} {speech : Speech} (own : Yields wanted done.path done.rule)
    (above : ∀ frame ∈ ancestors, Yields wanted frame.path frame.rule) (said : Said wanted speech) :
    Said wanted (trigger done ancestors speech) := by
  have say {candidate : VerdictCandidate} (new : wanted candidate) :
      ∀ c ∈ speech.candidates ++ [candidate], wanted c := by
    intro c member
    obtain member | member := List.mem_append.mp member
    · exact said c member
    · exact List.mem_singleton.mp member ▸ new
  rw [trigger]
  cases yielded : resolveRule done.rule with
  | some verdict => exact say (own verdict yielded)
  | none =>
    cases found : ancestors.find? fun frame => frame.rule.hasDirectVerdict with
    | none => exact said
    | some speaker =>
      dsimp only
      split_ifs
      · exact said
      · cases spoken : resolveRule speaker.rule with
        | some verdict => exact say (above speaker (List.mem_of_find?_eq_some found) verdict spoken)
        | none => exact said

mutual

theorem walkRule_said {wanted : VerdictCandidate → Prop} {snapshot : Snapshot} {ancestors : List (WalkFrame Condition)}
    {parentPath : String} {position : List ℕ} {speech : Speech} : (rule : Rule Condition) →
    (∀ path node, rules.Reached parentPath [rule] path node → Yields wanted path node) →
    (∀ frame ∈ ancestors, Yields wanted frame.path frame.rule) → Said wanted speech →
    Said wanted (walkRule language snapshot ancestors parentPath position speech rule).2
  | ⟨name, conditions, priority, enabled, actions, children⟩, tree, above, said => by
    let frame : WalkFrame Condition :=
      ⟨⟨name, conditions, priority, enabled, actions, children⟩, joinPath parentPath name, position⟩
    have own : Yields wanted frame.path frame.rule := tree _ _ (.here List.mem_cons_self)
    have deeper : Said wanted (walkRules language snapshot (frame :: ancestors) frame.path position 0 speech
        children).2 := by
      refine walkRules_said children ?_ ?_ said
      · intro path node reached
        exact tree path node (.under List.mem_cons_self reached)
      · exact List.forall_mem_cons.mpr ⟨own, above⟩
    rw [walkRule]
    by_cases matched : frame.rule.matches language snapshot = true
    · rw [if_pos matched]
      dsimp only
      split_ifs
      · exact deeper
      · exact trigger_said own above deeper
    · rw [if_neg matched]
      exact said

theorem walkRules_said {wanted : VerdictCandidate → Prop} {snapshot : Snapshot} {ancestors : List (WalkFrame Condition)}
    {parentPath : String} {position : List ℕ} {next : ℕ} {speech : Speech} : (roots : List (Rule Condition)) →
    (∀ path node, rules.Reached parentPath roots path node → Yields wanted path node) →
    (∀ frame ∈ ancestors, Yields wanted frame.path frame.rule) → Said wanted speech →
    Said wanted (walkRules language snapshot ancestors parentPath position next speech roots).2
  | [], _, _, said => said
  | rule :: rest, trees, above, said => by
    rw [walkRules]
    refine walkRules_said rest (fun path node reached => ?_) above
      (walkRule_said rule (fun path node reached => ?_) above said)
    · exact trees path node (reached.mono (List.subset_cons_self rule rest))
    · exact trees path node (reached.mono (by simp))

end

theorem mem_of_winner {candidates : List VerdictCandidate} {top : VerdictCandidate}
    (won : winner candidates = some top) : top ∈ candidates := by
  have among : ∀ c ∈ winner candidates, c ∈ candidates := by
    refine List.foldlRecOn (motive := fun winner => ∀ c ∈ winner, c ∈ candidates) candidates _ ?_ ?_
    · intro c none
      contradiction
    · intro before held candidate member c
      cases before with
      | none =>
        rintro ⟨⟩
        exact member
      | some current =>
        dsimp only
        split_ifs
        · rintro ⟨⟩
          exact member
        · exact held c
  exact among top won

/-- A join is the verdict of the rule it is attributed to. -/
theorem evaluate_join {forest : Forest Condition} {snapshot : Snapshot} {index : ℕ}
    (joined : (evaluate language forest snapshot).verdict = .join index) :
    (evaluate language forest snapshot).backstop = false ∧
      ∃ rule, rules.Reached "" forest.roots (evaluate language forest snapshot).attributedTo rule ∧
        .verdict (.join index) ∈ rule.actions := by
  let wanted (c : VerdictCandidate) : Prop :=
    ∃ rule, rules.Reached "" forest.roots c.rule rule ∧ .verdict c.verdict ∈ rule.actions
  have said : Said wanted (walkRules language snapshot [] "" [] 0 {} forest.roots).2 := by
    refine walkRules_said forest.roots ?_ (List.forall_mem_nil _) (List.forall_mem_nil _)
    intro path node reached verdict yielded
    exact ⟨node, reached, mem_of_resolveRule yielded⟩
  rw [evaluate] at joined ⊢
  cases won : winner (walkRules language snapshot [] "" [] 0 {} forest.roots).2.candidates with
  | none =>
    rw [won] at joined
    contradiction
  | some top =>
    rw [won] at joined
    obtain ⟨rule, reached, member⟩ := said top (mem_of_winner won)
    have same : top.verdict = .join index := joined
    rw [same] at member
    exact ⟨rfl, rule, reached, member⟩

/-! ## What is built -/

/-- Every join stands for an entry of the table that is named somewhere. -/
def Joins (table : List String) (named : String → Prop) (actions : List Action) : Prop :=
  ∀ index, .verdict (.join index) ∈ actions →
    ∃ target, table[index]? = some target ∧ named (toAsciiLowercase target)

theorem Joins.grow {table more : List String} {named : String → Prop} {actions : List Action}
    (joins : Joins table named actions) (longer : table <+: more) : Joins more named actions := by
  intro index member
  obtain ⟨target, there, by_⟩ := joins index member
  obtain ⟨rest, rfl⟩ := longer
  exact ⟨target, List.getElem?_append_left (List.getElem?_eq_some_iff.mp there).1 ▸ there, by_⟩

theorem noteProfile_grows (collector : Collector) (path : String) :
    collector.profiles <+: (collector.noteProfile path).2.profiles := by
  rw [Collector.noteProfile]
  split
  · exact List.prefix_rfl
  · exact List.prefix_append _ _

/-- The entry of a path that was noted spells it up to case. -/
theorem noteProfile_spells (collector : Collector) (path : String) :
    ∃ target, (collector.noteProfile path).2.profiles[(collector.noteProfile path).1]? = some target ∧
      toAsciiLowercase target = toAsciiLowercase path := by
  rw [Collector.noteProfile]
  split
  · rename_i index found
    obtain ⟨inside, same, -⟩ := List.findIdx?_eq_some_iff_getElem.mp found
    exact ⟨collector.profiles[index], List.getElem?_eq_getElem inside, by simpa [eqIgnoreAsciiCase] using same⟩
  · exact ⟨path, by simp, rfl⟩

/-- An action that is placed joins what it names, if it joins at all. -/
theorem placeAction_joins {path : String} {before after : Collector} {action placed : Action}
    {named : String → Prop} (fits : ∀ profile, action = .join profile → named (toAsciiLowercase profile))
    (written : ∀ index, action ≠ .verdict (.join index))
    (run : placeAction path before action = .ok (placed, after)) :
    before.profiles <+: after.profiles ∧ Joins after.profiles named [placed] := by
  have still {same : Action} (kept : .ok (same, before) = (Except.ok (placed, after) : Except BuildError _))
      (other : ∀ index, same ≠ .verdict (.join index)) :
      before.profiles <+: after.profiles ∧ Joins after.profiles named [placed] := by
    obtain ⟨rfl, rfl⟩ := Prod.mk.inj (Except.ok.inj kept)
    refine ⟨List.prefix_rfl, fun index member => ?_⟩
    exact absurd (List.mem_singleton.mp member).symm (other index)
  rw [placeAction.eq_def] at run
  split at run
  · exact still run nofun
  · exact still run nofun
  · split_ifs at run
    exact still run written
  · rename_i profile
    obtain ⟨rfl, rfl⟩ := Prod.mk.inj (Except.ok.inj run)
    obtain ⟨target, there, same⟩ := noteProfile_spells before profile
    refine ⟨noteProfile_grows before profile, fun index member => ?_⟩
    obtain rfl : index = (before.noteProfile profile).1 :=
      Verdict.join.inj (Action.verdict.inj (List.mem_singleton.mp member))
    exact ⟨target, there, same ▸ fits profile rfl⟩
  · contradiction
  · contradiction
  · contradiction

/-- A profile that some action among these values names. -/
def NamedIn (values : List (String × RegValue)) (target : String) : Prop :=
  ∃ items expr profile, ("Actions", .list items) ∈ values ∧ .str expr ∈ items ∧
    parseAction expr = .ok (.join profile) ∧ toAsciiLowercase profile = target

/-- Actions read so far, over a table that only grew. -/
def Placed (start : Collector) (named : String → Prop) (state : List Action × Collector) : Prop :=
  start.profiles <+: state.2.profiles ∧ Joins state.2.profiles named state.1

theorem takeAction_placed {path : String} {start : Collector} {named : String → Prop}
    {state next : List Action × Collector} {item : RegValue}
    (fits : ∀ expr profile, item = .str expr → parseAction expr = .ok (.join profile) →
      named (toAsciiLowercase profile))
    (placed : Placed start named state) (run : takeAction path state item = .ok next) :
    Placed start named next := by
  rw [takeAction] at run
  cases text : item.asStr with
  | none =>
    rw [text] at run
    contradiction
  | some expr =>
    rw [text] at run
    have is : item = .str expr := by
      cases item with
      | str other => exact congrArg RegValue.str (Option.some.inj text)
      | _ => contradiction
    cases parsed : parseAction expr with
    | error detail =>
      simp only [parsed] at run
      contradiction
    | ok action =>
      simp only [parsed] at run
      obtain ⟨⟨one, after⟩, put, run⟩ := Fallible.bind_eq_ok.mp run
      obtain rfl := Except.ok.inj run
      obtain ⟨longer, own⟩ := placeAction_joins (fun profile same => fits expr profile is (same ▸ parsed))
        (fun index same => parseAction_no_index (same ▸ parsed)) put
      refine ⟨placed.1.trans longer, fun index member => ?_⟩
      obtain before | last := List.mem_append.mp member
      · exact (placed.2.grow longer) index before
      · exact own index last

/-- A draft whose joins are named among the values of the rule. -/
def Draft.Placed (start : Collector) (named : String → Prop) (draft : Draft Condition) : Prop :=
  Policy.Placed start named (draft.actions, draft.collector)

theorem takeRuleValue_placed {path : String} {start : Collector} {values : List (String × RegValue)}
    {draft next : Draft Condition} {entry : String × RegValue} (there : entry ∈ values)
    (placed : draft.Placed start (NamedIn values)) (run : takeRuleValue language path draft entry = .ok next) :
    next.Placed start (NamedIn values) := by
  obtain ⟨key, value⟩ := entry
  rw [takeRuleValue.eq_def] at run
  dsimp only at run
  split at run
  · split at run
    · obtain rfl := Except.ok.inj run
      exact placed
    · contradiction
  · split at run
    · obtain rfl := Except.ok.inj run
      exact placed
    · obtain rfl := Except.ok.inj run
      exact placed
    · contradiction
  · split at run
    · rename_i items
      obtain ⟨⟨actions, collector⟩, folded, run⟩ := Fallible.bind_eq_ok.mp run
      obtain rfl := Except.ok.inj run
      have keeps : ∀ state, ∀ item ∈ items, ∀ next, Policy.Placed start (NamedIn values) state →
          takeAction path state item = .ok next → Policy.Placed start (NamedIn values) next := by
        intro state item member next placed run
        refine takeAction_placed (fun expr profile same parsed => ?_) placed run
        exact ⟨items, expr, profile, there, same ▸ member, parsed, rfl⟩
      exact Fallible.foldlM_invariant keeps placed folded
    · contradiction
  · obtain ⟨⟨condition, never⟩, -, run⟩ := Fallible.bind_eq_ok.mp run
    dsimp only at run
    split_ifs at run <;> obtain rfl := Except.ok.inj run <;> exact placed

theorem buildNode_ok {parentPath name : String} {parentPriority : ℤ} {before after : Collector}
    {values : List (String × RegValue)} {rule : Rule Condition}
    (run : buildNode language parentPath parentPriority before name values = .ok (rule, after)) :
    rule.name = name ∧ before.profiles <+: after.profiles ∧
      Joins after.profiles (NamedIn values) rule.actions := by
  rw [buildNode] at run
  dsimp only at run
  split_ifs at run
  · contradiction
  obtain ⟨draft, folded, run⟩ := Fallible.bind_eq_ok.mp run
  obtain ⟨rfl, rfl⟩ := Prod.mk.inj (Except.ok.inj run)
  have empty : ({ priority := parentPriority, collector := before } : Draft Condition).Placed before
      (NamedIn values) := by
    refine ⟨List.prefix_rfl, ?_⟩
    intro index member
    exact absurd member List.not_mem_nil
  have keeps : ∀ draft, ∀ entry ∈ values, ∀ next : Draft Condition, draft.Placed before (NamedIn values) →
      takeRuleValue language (joinPath parentPath name) draft entry = .ok next →
      next.Placed before (NamedIn values) :=
    fun _ _ there _ placed run => takeRuleValue_placed there placed run
  obtain ⟨longer, joins⟩ := Fallible.foldlM_invariant keeps empty folded
  exact ⟨rfl, longer, joins⟩

/-- A rule that is built is its own node with the rules of its subkeys. -/
theorem buildRule_ok {parentPath : String} {parentPriority : ℤ} {before after : Collector} {input : RuleInput}
    {rule : Rule Condition} (run : buildRule language parentPath parentPriority before input = .ok (rule, after)) :
    ∃ node middle, buildNode language parentPath parentPriority before input.name input.values = .ok (node, middle) ∧
      rule.name = node.name ∧ rule.actions = node.actions ∧
      buildRules language (joinPath parentPath input.name) node.priority middle input.children =
        .ok (rule.children, after) := by
  obtain ⟨name, values, children⟩ := input
  rw [buildRule] at run
  obtain ⟨⟨node, middle⟩, built, run⟩ := Fallible.bind_eq_ok.mp run
  obtain ⟨⟨below, last⟩, deeper, run⟩ := Fallible.bind_eq_ok.mp run
  obtain ⟨rfl, rfl⟩ := Prod.mk.inj (Except.ok.inj run)
  exact ⟨node, middle, built, rfl, rfl, deeper⟩

theorem buildRules_cons {parentPath : String} {parentPriority : ℤ} {before after : Collector} {input : RuleInput}
    {rest : List RuleInput} {built : List (Rule Condition)}
    (run : buildRules language parentPath parentPriority before (input :: rest) = .ok (built, after)) :
    ∃ rule others middle, built = rule :: others ∧
      buildRule language parentPath parentPriority before input = .ok (rule, middle) ∧
      buildRules language parentPath parentPriority middle rest = .ok (others, after) := by
  rw [buildRules] at run
  obtain ⟨⟨rule, middle⟩, first, run⟩ := Fallible.bind_eq_ok.mp run
  obtain ⟨⟨others, last⟩, later, run⟩ := Fallible.bind_eq_ok.mp run
  obtain ⟨rfl, rfl⟩ := Prod.mk.inj (Except.ok.inj run)
  exact ⟨rule, others, middle, rfl, first, later⟩

mutual

theorem buildRule_grows {parentPath : String} {parentPriority : ℤ} {before after : Collector} :
    (input : RuleInput) → {rule : Rule Condition} →
    buildRule language parentPath parentPriority before input = .ok (rule, after) →
    before.profiles <+: after.profiles
  | ⟨name, values, children⟩, rule, run => by
    obtain ⟨node, middle, built, -, -, deeper⟩ := buildRule_ok run
    obtain ⟨-, longer, -⟩ := buildNode_ok built
    exact longer.trans (buildRules_grows children deeper)

theorem buildRules_grows {parentPath : String} {parentPriority : ℤ} {before after : Collector} :
    (inputs : List RuleInput) → {built : List (Rule Condition)} →
    buildRules language parentPath parentPriority before inputs = .ok (built, after) →
    before.profiles <+: after.profiles
  | [], built, run => by
    rw [buildRules] at run
    obtain ⟨-, rfl⟩ := Prod.mk.inj (Except.ok.inj run)
    exact List.prefix_rfl
  | input :: rest, built, run => by
    obtain ⟨rule, others, middle, -, first, later⟩ := buildRules_cons run
    exact (buildRule_grows input first).trans (buildRules_grows rest later)

end

/-- A rule that was built from an input, over a table that may have grown since. -/
def BuiltFrom (language : Conditions Condition Snapshot) (table : List String) (rule : Rule Condition)
    (input : RuleInput) : Prop :=
  ∃ parentPath parentPriority before after,
    buildRule language parentPath parentPriority before input = .ok (rule, after) ∧ after.profiles <+: table

theorem buildRules_from {parentPath : String} {parentPriority : ℤ} {before after : Collector} {table : List String}
    {inputs : List RuleInput} {built : List (Rule Condition)}
    (run : buildRules language parentPath parentPriority before inputs = .ok (built, after))
    (longer : after.profiles <+: table) :
    ∀ rule ∈ built, ∃ input ∈ inputs, BuiltFrom language table rule input := by
  induction inputs generalizing before built with
  | nil =>
    rw [buildRules] at run
    obtain ⟨rfl, -⟩ := Prod.mk.inj (Except.ok.inj run)
    exact List.forall_mem_nil _
  | cons input rest ih =>
    obtain ⟨first, others, middle, rfl, one, later⟩ := buildRules_cons run
    refine List.forall_mem_cons.mpr ⟨?_, fun rule member => ?_⟩
    · exact ⟨input, List.mem_cons_self, _, _, _, _, one, (buildRules_grows rest later).trans longer⟩
    · obtain ⟨other, there, from_⟩ := ih later rule member
      exact ⟨other, List.mem_cons_of_mem _ there, from_⟩

theorem builtFrom_simulation (language : Conditions Condition Snapshot) (table : List String) :
    Rose.Simulation (@rules Condition) inputs (BuiltFrom language table) where
  extend := by
    rintro rule input ⟨parentPath, parentPriority, before, after, run, -⟩ path
    obtain ⟨node, middle, built, name, -, -⟩ := buildRule_ok run
    change joinPath path rule.name = joinPath path input.name
    rw [name, (buildNode_ok built).1]
  children := by
    rintro rule input ⟨parentPath, parentPriority, before, after, run, longer⟩
    obtain ⟨node, middle, built, -, -, deeper⟩ := buildRule_ok run
    exact buildRules_from deeper longer

/-- The joins of a rule are named among the values it was built from. -/
theorem BuiltFrom.joins {table : List String} {rule : Rule Condition} {input : RuleInput}
    (from_ : BuiltFrom language table rule input) : Joins table (NamedIn input.values) rule.actions := by
  obtain ⟨parentPath, parentPriority, before, after, run, longer⟩ := from_
  obtain ⟨node, middle, built, -, actions, deeper⟩ := buildRule_ok run
  obtain ⟨-, -, joins⟩ := buildNode_ok built
  rw [actions]
  exact joins.grow ((buildRules_grows input.children deeper).trans longer)

/-! ## What is handed on -/

theorem lower_ok {profiles : Profiles} {path : String} {key : RawKey} {input : RuleInput}
    (run : lower profiles path key = .ok input) :
    input.name = key.name ∧ key.values.mapM (lowerValue profiles (joinPath path key.name)) = .ok input.values ∧
      lowerAll profiles (joinPath path key.name) key.children = .ok input.children := by
  obtain ⟨name, values, children⟩ := key
  rw [lower] at run
  obtain ⟨lowered, each, run⟩ := Fallible.bind_eq_ok.mp run
  obtain ⟨below, deeper, run⟩ := Fallible.bind_eq_ok.mp run
  obtain rfl := Except.ok.inj run
  exact ⟨rfl, each, deeper⟩

theorem lowerAll_from {profiles : Profiles} {path : String} {keys : List RawKey} {inputs : List RuleInput}
    (run : lowerAll profiles path keys = .ok inputs) :
    ∀ input ∈ inputs, ∃ key ∈ keys, ∃ path, lower profiles path key = .ok input := by
  induction keys generalizing inputs with
  | nil =>
    rw [lowerAll] at run
    obtain rfl := Except.ok.inj run
    exact List.forall_mem_nil _
  | cons key rest ih =>
    rw [lowerAll] at run
    obtain ⟨first, one, run⟩ := Fallible.bind_eq_ok.mp run
    obtain ⟨others, later, run⟩ := Fallible.bind_eq_ok.mp run
    obtain rfl := Except.ok.inj run
    refine List.forall_mem_cons.mpr ⟨⟨key, List.mem_cons_self, path, one⟩, fun input member => ?_⟩
    obtain ⟨other, there, from_⟩ := ih later input member
    exact ⟨other, List.mem_cons_of_mem _ there, from_⟩

theorem lower_simulation (profiles : Profiles) :
    Rose.Simulation inputs keys fun input key => ∃ path, lower profiles path key = .ok input where
  extend := by
    rintro input key ⟨_, run⟩ path
    change joinPath path input.name = joinPath path key.name
    rw [(lower_ok run).1]
  children := by
    rintro input key ⟨path, run⟩
    exact lowerAll_from (lower_ok run).2.2

/-- An action of a key, as it is written, that names a profile which is not disabled. -/
def Writes (profiles : Profiles) (key : RawKey) (target : String) : Prop :=
  ∃ items item, ("Actions", .list items) ∈ key.values ∧ item ∈ items ∧ joinTarget item = some target ∧
    ∀ p, profiles.lookup target = some p → p.enabled = true

/-- An action that is handed on as a join is handed on as it is written. -/
theorem lowerItem_join {profiles : Profiles} {item expr profile : String}
    (lowered : lowerItem profiles true item = expr) (parsed : parseAction expr = .ok (.join profile)) :
    joinTarget item = some (toAsciiLowercase profile) ∧
      ∀ p, profiles.lookup (toAsciiLowercase profile) = some p → p.enabled = true := by
  have target := (joinTarget_of_parseAction parsed _).mpr ⟨profile, rfl, rfl⟩
  have null : joinTarget "NULL" = none := by decide +kernel
  rw [lowerItem] at lowered
  cases cut : joinTarget item with
  | none =>
    simp only [cut] at lowered
    rw [lowered, target] at cut
    contradiction
  | some name =>
    simp only [cut, if_true] at lowered
    cases found : profiles.lookup name with
    | none =>
      simp only [found] at lowered
      rw [lowered, target] at cut
      obtain rfl := Option.some.inj cut
      exact ⟨rfl, fun p there => by rw [found] at there; contradiction⟩
    | some p =>
      simp only [found] at lowered
      split_ifs at lowered with off
      · rw [← lowered, null] at target
        contradiction
      · rw [lowered, target] at cut
        obtain rfl := Option.some.inj cut
        refine ⟨rfl, fun q there => ?_⟩
        obtain rfl := Option.some.inj (found.symm.trans there)
        simpa using off

theorem writes_of_namedIn {profiles : Profiles} {path : String} {key : RawKey} {input : RuleInput}
    (run : lower profiles path key = .ok input) {target : String} (named : NamedIn input.values target) :
    Writes profiles key target := by
  obtain ⟨lowered, expr, profile, there, inside, parsed, rfl⟩ := named
  obtain ⟨-, each, -⟩ := lower_ok run
  obtain ⟨⟨name, value⟩, member, one⟩ := Fallible.mem_of_mapM each _ there
  rw [lowerValue] at one
  cases value with
  | list items =>
    obtain ⟨rfl, same⟩ := Prod.mk.inj (Except.ok.inj one)
    obtain rfl := RegValue.list.inj same
    obtain ⟨item, written, text⟩ := List.mem_map.mp inside
    have actions : eqIgnoreAsciiCase "Actions" "Actions" = true := by decide +kernel
    rw [actions] at text
    obtain ⟨cut, enabled⟩ := lowerItem_join (RegValue.str.inj text) parsed
    exact ⟨items, item, member, written, cut, enabled⟩
  | int value =>
    have := Prod.mk.inj (Except.ok.inj one)
    simp at this
  | str text =>
    have := Prod.mk.inj (Except.ok.inj one)
    simp at this
  | other => contradiction

end Netd.Model.Policy
