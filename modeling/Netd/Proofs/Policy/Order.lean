import Netd.Proofs.Policy.Generation
import Netd.Proofs.Policy.Speakers

/-! # Tree order carries no meaning

The registry lists subkeys in an order of its own. Two trees with the same rules in another order, at any
level, are both refused or both built, and the two generations judge every interface alike. The joins of
the two are numbered differently, since a table keeps its paths as they are first met: what a join
stands for is compared instead.
-/

namespace Netd.Model.Policy

variable {Condition Snapshot : Type} {language : Conditions Condition Snapshot}

/-! ## Verdicts over two tables -/

section Tables

variable (table others : List String)

/-- Verdicts that mean the same, each over its own table. -/
inductive SameVerdict : Verdict → Verdict → Prop
  | join {index index' : ℕ} {target target' : String} (there : table[index]? = some target)
      (there' : others[index']? = some target') (same : toAsciiLowercase target = toAsciiLowercase target') :
      SameVerdict (.join index) (.join index')
  | plain {verdict : Verdict} (other : ∀ index, verdict ≠ .join index) : SameVerdict verdict verdict

inductive SameAction : Action → Action → Prop
  | verdict {verdict verdict' : Verdict} (same : SameVerdict table others verdict verdict') :
      SameAction (.verdict verdict) (.verdict verdict')
  | plain {action : Action} (other : ∀ verdict, action ≠ .verdict verdict) : SameAction action action

/-- Rules that do the same, whatever their exceptions. -/
structure SameRule (rule rule' : Rule Condition) : Prop where
  name : rule.name = rule'.name
  conditions : rule.conditions = rule'.conditions
  priority : rule.priority = rule'.priority
  enabled : rule.enabled = rule'.enabled
  actions : List.Forall₂ (SameAction table others) rule.actions rule'.actions

/-- Paths differ in more than case. -/
def Distinct : Prop := (table.map toAsciiLowercase).Nodup

end Tables

variable {table others : List String}

theorem SameVerdict.symm {verdict verdict' : Verdict} (same : SameVerdict table others verdict verdict') :
    SameVerdict others table verdict' verdict := by
  cases same with
  | join there there' same => exact .join there' there same.symm
  | plain other => exact .plain other

theorem SameAction.symm {action action' : Action} (same : SameAction table others action action') :
    SameAction others table action' action := by
  cases same with
  | verdict same => exact .verdict same.symm
  | plain other => exact .plain other

theorem SameRule.symm {rule rule' : Rule Condition} (same : SameRule table others rule rule') :
    SameRule others table rule' rule where
  name := same.name.symm
  conditions := same.conditions.symm
  priority := same.priority.symm
  enabled := same.enabled.symm
  actions := same.actions.flip.imp fun _ _ => SameAction.symm

theorem SameVerdict.strictness {verdict verdict' : Verdict} (same : SameVerdict table others verdict verdict') :
    verdict.strictness = verdict'.strictness := by
  cases same with
  | join => rfl
  | plain => rfl

/-- Over tables without doubles the same verdict stays the same, and no other becomes it. -/
theorem SameVerdict.eq_of_eq (distinct : Distinct others) {verdict verdict' other other' : Verdict}
    (same : SameVerdict table others verdict verdict') (also : SameVerdict table others other other')
    (equal : verdict = other) : verdict' = other' := by
  subst equal
  cases same with
  | @join _ first _ _ there there' same =>
    cases also with
    | @join _ second _ _ again again' also =>
      obtain rfl := Option.some.inj (there.symm.trans again)
      have spelled := same.symm.trans also
      obtain ⟨inside, rfl⟩ := List.getElem?_eq_some_iff.mp there'
      obtain ⟨inside', rfl⟩ := List.getElem?_eq_some_iff.mp again'
      have bound : first < (others.map toAsciiLowercase).length := by rwa [List.length_map]
      have bound' : second < (others.map toAsciiLowercase).length := by rwa [List.length_map]
      have entries : (others.map toAsciiLowercase)[first] = (others.map toAsciiLowercase)[second] := by
        rwa [List.getElem_map, List.getElem_map]
      exact congrArg Verdict.join ((List.Nodup.getElem_inj_iff distinct).mp entries)
    | plain other => exact absurd rfl (other _)
  | plain plain =>
    cases also with
    | join => exact absurd rfl (plain _)
    | plain => rfl

/-- What two rules that do the same yield. -/
theorem SameRule.resolve {rule rule' : Rule Condition} (same : SameRule table others rule rule') :
    Option.Rel (SameVerdict table others) (resolveRule rule) (resolveRule rule') := by
  have fold {actions actions' : List Action} (each : List.Forall₂ (SameAction table others) actions actions')
      {start start' : Option Verdict} (both : Option.Rel (SameVerdict table others) start start') :
      Option.Rel (SameVerdict table others) (actions.foldl resolveAction start)
        (actions'.foldl resolveAction start') := by
    induction each generalizing start start' with
    | nil => exact both
    | @cons action action' _ _ first _ ih =>
      refine ih ?_
      cases first with
      | verdict found =>
        cases both with
        | none => exact .some found
        | @some current current' both =>
          refine .some ?_
          rw [Verdict.strictest, Verdict.strictest, both.strictness, found.strictness]
          split_ifs
          · exact found
          · exact both
      | plain other =>
        cases action with
        | verdict found => exact absurd rfl (other found)
        | _ => exact both
  exact fold same.actions .none

/-! ## One rule, read with either collector -/

/-- Actions that mean the same, over whatever the tables grow to. -/
def SameActions (state state' : List Action × Collector) : Prop :=
  ∀ table others, state.2.profiles <+: table → state'.2.profiles <+: others →
    List.Forall₂ (SameAction table others) state.1 state'.1

theorem SameActions.append {actions actions' : List Action} {before before' after after' : Collector}
    {action action' : Action} (same : SameActions (actions, before) (actions', before'))
    (grows : before.profiles <+: after.profiles) (grows' : before'.profiles <+: after'.profiles)
    (last : ∀ table others, after.profiles <+: table → after'.profiles <+: others →
      SameAction table others action action') :
    SameActions (actions ++ [action], after) (actions' ++ [action'], after') := by
  intro table others longer longer'
  exact List.rel_append (same table others (grows.trans longer) (grows'.trans longer'))
    (.cons (last table others longer longer') .nil)

theorem getElem?_of_longer {items more : List String} (longer : items <+: more) {index : ℕ} {item : String}
    (there : items[index]? = some item) : more[index]? = some item := by
  obtain ⟨rest, rfl⟩ := longer
  rwa [List.getElem?_append_left (List.getElem?_eq_some_iff.mp there).1]

theorem placeAction_alike {path : String} {action : Action} {actions actions' : List Action}
    {collector collector' : Collector} (written : ∀ index, action ≠ .verdict (.join index))
    (same : SameActions (actions, collector) (actions', collector')) :
    Fallible.Alike (fun s t => SameActions (actions ++ [s.1], s.2) (actions' ++ [t.1], t.2))
      (placeAction path collector action) (placeAction path collector' action) := by
  have still {kept : Action} (other : ∀ verdict, kept ≠ .verdict verdict) :
      SameActions (actions ++ [kept], collector) (actions' ++ [kept], collector') :=
    same.append List.prefix_rfl List.prefix_rfl fun _ _ _ _ => .plain other
  cases action with
  | null => exact .ok (still nofun)
  | report level => exact .ok (still nofun)
  | verdict verdict =>
    rw [placeAction, placeAction]
    split_ifs
    · refine .ok (same.append List.prefix_rfl List.prefix_rfl fun _ _ _ _ => .verdict (.plain fun index is => ?_))
      exact written index (congrArg Action.verdict is)
    · exact .error _
  | join profile =>
    refine .ok (same.append (noteProfile_grows _ _) (noteProfile_grows _ _) fun table others longer longer' => ?_)
    obtain ⟨target, there, spelled⟩ := noteProfile_spells collector profile
    obtain ⟨target', there', spelled'⟩ := noteProfile_spells collector' profile
    exact .verdict (.join (getElem?_of_longer longer there) (getElem?_of_longer longer' there')
      (spelled.trans spelled'.symm))
  | _ => exact .error _

theorem takeAction_alike {path : String} {state state' : List Action × Collector} (item : RegValue)
    (same : SameActions state state') :
    Fallible.Alike SameActions (takeAction path state item) (takeAction path state' item) := by
  rw [takeAction, takeAction]
  cases item.asStr with
  | none => exact .error _
  | some expr =>
    cases parsed : parseAction expr with
    | error detail =>
      simp only [parsed]
      exact .error _
    | ok action =>
      simp only [parsed]
      exact (placeAction_alike (fun index is => parseAction_no_index (is ▸ parsed)) same).bind fun _ _ both => .ok both

/-- Drafts of one rule, over two collectors. -/
structure SameDraft (draft draft' : Draft Condition) : Prop where
  conditions : draft.conditions = draft'.conditions
  timeConditions : draft.timeConditions = draft'.timeConditions
  priority : draft.priority = draft'.priority
  enabled : draft.enabled = draft'.enabled
  actions : SameActions (draft.actions, draft.collector) (draft'.actions, draft'.collector)

theorem takeRuleValue_alike {path : String} {draft draft' : Draft Condition} (entry : String × RegValue)
    (same : SameDraft draft draft') :
    Fallible.Alike SameDraft (takeRuleValue language path draft entry) (takeRuleValue language path draft' entry) := by
  obtain ⟨key, value⟩ := entry
  rw [takeRuleValue.eq_def, takeRuleValue.eq_def]
  dsimp only
  split
  · cases value.asInt with
    | none => exact .error _
    | some priority => exact .ok { same with priority := rfl }
  · split
    · exact .ok { same with enabled := rfl }
    · exact .ok { same with enabled := rfl }
    · exact .error _
  · cases value with
    | list items =>
      have folded : Fallible.Alike SameActions (items.foldlM (takeAction path) (draft.actions, draft.collector))
          (items.foldlM (takeAction path) (draft'.actions, draft'.collector)) :=
        Fallible.foldlM_alike (fun _ _ item both => takeAction_alike item both) items same.actions
      exact folded.bind fun _ _ both => .ok ⟨same.conditions, same.timeConditions, same.priority, same.enabled, both⟩
    | _ => exact .error _
  · cases language.parse path _ value with
    | error e => exact .error e
    | ok read =>
      obtain ⟨condition, never⟩ := read
      rw [Fallible.ok_bind, Fallible.ok_bind]
      dsimp only
      by_cases live : language.isLiveTime condition = true
      · rw [if_pos live, if_pos live]
        exact .ok ⟨same.conditions, congrArg (· ++ [condition]) same.timeConditions, same.priority, same.enabled,
          same.actions⟩
      · rw [if_neg live, if_neg live]
        exact .ok ⟨congrArg (· ++ [condition]) same.conditions, same.timeConditions, same.priority, same.enabled,
          same.actions⟩

theorem buildNode_alike {path name : String} {priority : ℤ} {collector collector' : Collector}
    {values : List (String × RegValue)} :
    Fallible.Alike (fun s t : Rule Condition × Collector => s.1.name = t.1.name ∧ s.1.conditions = t.1.conditions ∧
        s.1.priority = t.1.priority ∧ s.1.enabled = t.1.enabled ∧ SameActions (s.1.actions, s.2) (t.1.actions, t.2))
      (buildNode language path priority collector name values)
      (buildNode language path priority collector' name values) := by
  rw [buildNode, buildNode]
  dsimp only
  split_ifs
  · exact .error _
  · have start : SameDraft ({ priority, collector } : Draft Condition) { priority, collector := collector' } :=
      ⟨rfl, rfl, rfl, rfl, fun _ _ _ _ => .nil⟩
    have folded : Fallible.Alike SameDraft
        (values.foldlM (takeRuleValue language (joinPath path name)) { priority, collector })
        (values.foldlM (takeRuleValue language (joinPath path name)) { priority, collector := collector' }) :=
      Fallible.foldlM_alike (fun _ _ entry both => takeRuleValue_alike entry both) values start
    refine folded.bind fun draft draft' same => .ok ⟨rfl, ?_, same.priority, same.enabled, same.actions⟩
    exact congrArg₂ (· ++ ·) same.conditions same.timeConditions

/-- The node of a rule, with the exceptions built under it. -/
theorem buildRule_node {path : String} {priority : ℤ} {before after : Collector} {input : RuleInput}
    {rule : Rule Condition} :
    buildRule language path priority before input = .ok (rule, after) ↔
      ∃ node middle, buildNode language path priority before input.name input.values = .ok (node, middle) ∧
        buildRules language (joinPath path input.name) node.priority middle input.children =
          .ok (rule.children, after) ∧ rule = { node with children := rule.children } := by
  obtain ⟨name, values, children⟩ := input
  rw [buildRule]
  constructor
  · intro run
    obtain ⟨⟨node, middle⟩, built, run⟩ := Fallible.bind_eq_ok.mp run
    obtain ⟨⟨below, last⟩, deeper, run⟩ := Fallible.bind_eq_ok.mp run
    obtain ⟨rfl, rfl⟩ := Prod.mk.inj (Except.ok.inj run)
    exact ⟨node, middle, built, deeper, rfl⟩
  · rintro ⟨node, middle, built, deeper, whole⟩
    rw [built, Fallible.ok_bind]
    dsimp only
    rw [deeper, Fallible.ok_bind, whole]
    rfl

/-! ## A tree, built in either order -/

/-- A rule that is built, whatever was collected before it. -/
def Buildable (language : Conditions Condition Snapshot) (path : String) (priority : ℤ) (input : RuleInput) : Prop :=
  ∀ collector, ∃ built, buildRule language path priority collector input = .ok built

theorem buildRules_of_buildable {path : String} {priority : ℤ} {siblings : List RuleInput}
    (each : ∀ input ∈ siblings, Buildable language path priority input) (collector : Collector) :
    ∃ built, buildRules language path priority collector siblings = .ok built := by
  induction siblings generalizing collector with
  | nil => exact ⟨_, rfl⟩
  | cons input rest ih =>
    obtain ⟨here, later⟩ := List.forall_mem_cons.mp each
    obtain ⟨⟨rule, middle⟩, first⟩ := here collector
    obtain ⟨⟨others, last⟩, run⟩ := ih later middle
    refine ⟨(rule :: others, last), ?_⟩
    rw [buildRules, first, Fallible.ok_bind]
    dsimp only
    rw [run]
    rfl

mutual

theorem buildRule_any {path : String} {priority : ℤ} {before after : Collector} : (input : RuleInput) →
    {rule : Rule Condition} → buildRule language path priority before input = .ok (rule, after) →
    Buildable language path priority input
  | ⟨name, values, children⟩, rule, run => by
    intro collector
    obtain ⟨node, middle, built, deeper, -⟩ := buildRule_node.mp run
    obtain ⟨⟨node', middle'⟩, built', -, -, priorities, -, -⟩ := (@buildNode_alike _ _ language path name priority
      before collector values).exists_ok built
    obtain ⟨⟨below, last⟩, deeper'⟩ := buildRules_of_buildable (buildRules_any children deeper) middle'
    refine ⟨({ node' with children := below }, last), buildRule_node.mpr ⟨node', middle', built', ?_, rfl⟩⟩
    exact priorities ▸ deeper'

theorem buildRules_any {path : String} {priority : ℤ} {before after : Collector} : (siblings : List RuleInput) →
    {built : List (Rule Condition)} → buildRules language path priority before siblings = .ok (built, after) →
    ∀ input ∈ siblings, Buildable language path priority input
  | [], _, _ => List.forall_mem_nil _
  | input :: rest, built, run => by
    obtain ⟨rule, others, middle, -, first, later⟩ := buildRules_cons run
    exact List.forall_mem_cons.mpr ⟨buildRule_any input first, buildRules_any rest later⟩

end

theorem buildable_iff {path : String} {priority : ℤ} {input : RuleInput} :
    Buildable language path priority input ↔
      ∃ node after, buildNode language path priority {} input.name input.values = .ok (node, after) ∧
        ∀ child ∈ input.children, Buildable language (joinPath path input.name) node.priority child := by
  constructor
  · intro buildable
    obtain ⟨⟨rule, last⟩, run⟩ := buildable {}
    obtain ⟨node, middle, built, deeper, -⟩ := buildRule_node.mp run
    exact ⟨node, middle, built, buildRules_any _ deeper⟩
  · rintro ⟨node, middle, built, each⟩
    obtain ⟨⟨below, last⟩, deeper⟩ := buildRules_of_buildable each middle
    have whole : buildRule language path priority {} input = .ok ({ node with children := below }, last) :=
      buildRule_node.mpr ⟨node, middle, built, deeper, rfl⟩
    exact buildRule_any input whole

/-- One key under two names of the tree. -/
def SameInput (input other : RuleInput) : Prop := input.name = other.name ∧ input.values = other.values

theorem Buildable.rearranged {siblings images : List RuleInput}
    (same : inputs.Rearranged inputs SameInput siblings images) : ∀ {path : String} {priority : ℤ},
    (∀ input ∈ siblings, Buildable language path priority input) →
      ∀ input ∈ images, Buildable language path priority input := by
  induction same with
  | nil => exact fun _ => List.forall_mem_nil _
  | @cons tree image trees before after here below beside deeper ih =>
    intro path priority each input member
    obtain ⟨first, later⟩ := List.forall_mem_cons.mp each
    have split : input = image ∨ input ∈ before ++ after := by
      rwa [← List.mem_cons, ← List.perm_middle.mem_iff]
    obtain rfl | member := split
    · obtain ⟨node, middle, built, each⟩ := buildable_iff.mp first
      obtain ⟨name, values⟩ := here
      refine buildable_iff.mpr ⟨node, middle, ?_, ?_⟩
      · rwa [← name, ← values]
      · rw [← name]
        exact deeper each
    · exact ih later input member

/-! ## Built from the same -/

/-- A rule built from an input at a path, over a table that may have grown since. -/
def BuiltAt (language : Conditions Condition Snapshot) (path : String) (priority : ℤ) (table : List String)
    (rule : Rule Condition) (input : RuleInput) : Prop :=
  ∃ before after, buildRule language path priority before input = .ok (rule, after) ∧ after.profiles <+: table

theorem buildRules_builtAt {path : String} {priority : ℤ} {before after : Collector} {siblings : List RuleInput}
    {built : List (Rule Condition)} (run : buildRules language path priority before siblings = .ok (built, after))
    (longer : after.profiles <+: table) :
    List.Forall₂ (BuiltAt language path priority table) built siblings := by
  induction siblings generalizing before built with
  | nil =>
    rw [buildRules] at run
    obtain ⟨rfl, -⟩ := Prod.mk.inj (Except.ok.inj run)
    exact .nil
  | cons input rest ih =>
    obtain ⟨rule, others, middle, rfl, first, later⟩ := buildRules_cons run
    exact .cons ⟨_, _, first, (buildRules_grows rest later).trans longer⟩ (ih later)

/-- Rules that were built from the same, each over its own table. -/
def Paired (language : Conditions Condition Snapshot) (table others : List String) (rule rule' : Rule Condition) :
    Prop :=
  ∃ path priority input input', SameInput input input' ∧
    inputs.Rearranged inputs SameInput input.children input'.children ∧
    BuiltAt language path priority table rule input ∧ BuiltAt language path priority others rule' input'

/-- Two lists of rules where each rule of one is related to one of the other. -/
def Matched (related : Rule Condition → Rule Condition → Prop) (siblings images : List (Rule Condition)) : Prop :=
  (∀ rule ∈ siblings, ∃ image ∈ images, related rule image) ∧ ∀ image ∈ images, ∃ rule ∈ siblings, related rule image

theorem Matched.flip {related : Rule Condition → Rule Condition → Prop} {siblings images : List (Rule Condition)}
    (matched : Matched related siblings images) : Matched (fun image rule => related rule image) images siblings :=
  ⟨matched.2, matched.1⟩

theorem exists_of_forall₂ {α β : Type} {related : α → β → Prop} {items : List α} {images : List β}
    (each : List.Forall₂ related items images) : ∀ item ∈ items, ∃ image ∈ images, related item image := by
  induction each with
  | nil => exact List.forall_mem_nil _
  | cons here _ ih =>
    refine List.forall_mem_cons.mpr ⟨⟨_, List.mem_cons_self, here⟩, fun item member => ?_⟩
    obtain ⟨image, there, both⟩ := ih item member
    exact ⟨image, List.mem_cons_of_mem _ there, both⟩

theorem matched_builtAt {path : String} {priority : ℤ} {siblings images : List RuleInput}
    {built built' : List (Rule Condition)} (same : inputs.Rearranged inputs SameInput siblings images)
    (from_ : List.Forall₂ (BuiltAt language path priority table) built siblings)
    (from_' : List.Forall₂ (BuiltAt language path priority others) built' images) :
    Matched (Paired language table others) built built' := by
  constructor
  · intro rule member
    obtain ⟨input, there, at_⟩ := exists_of_forall₂ from_ rule member
    obtain ⟨image, there, equal, below⟩ := same.exists_image input there
    obtain ⟨rule', there, at_'⟩ := exists_of_forall₂ from_'.flip image there
    exact ⟨rule', there, path, priority, input, image, equal, below, at_, at_'⟩
  · intro rule' member
    obtain ⟨image, there, at_'⟩ := exists_of_forall₂ from_' rule' member
    obtain ⟨input, there, equal, below⟩ := same.exists_origin image there
    obtain ⟨rule, there, at_⟩ := exists_of_forall₂ from_.flip input there
    exact ⟨rule, there, path, priority, input, image, equal, below, at_, at_'⟩

/-- Related rules do the same, and so do their exceptions. -/
structure Bisimulation (table others : List String) (related : Rule Condition → Rule Condition → Prop) : Prop where
  same : ∀ {rule rule'}, related rule rule' → SameRule table others rule rule'
  children : ∀ {rule rule'}, related rule rule' → Matched related rule.children rule'.children

theorem Bisimulation.flip {related : Rule Condition → Rule Condition → Prop}
    (both : Bisimulation table others related) : Bisimulation others table fun rule' rule => related rule rule' where
  same pair := (both.same pair).symm
  children pair := (both.children pair).flip

theorem paired_bisimulation (language : Conditions Condition Snapshot) (table others : List String) :
    Bisimulation table others (Paired language table others) := by
  have read {rule rule' : Rule Condition} : Paired language table others rule rule' →
      SameRule table others rule rule' ∧ Matched (Paired language table others) rule.children rule'.children := by
    rintro ⟨path, priority, ⟨name, values, siblings⟩, ⟨_, _, images⟩, ⟨rfl, rfl⟩, below, ⟨before, after, run, longer⟩,
      ⟨before', after', run', longer'⟩⟩
    obtain ⟨node, middle, built, deeper, whole⟩ := buildRule_node.mp run
    obtain ⟨node', middle', built', deeper', whole'⟩ := buildRule_node.mp run'
    obtain ⟨_, again, same⟩ := (@buildNode_alike _ _ language path name priority before before' values).exists_ok built
    obtain rfl := Except.ok.inj (again.symm.trans built')
    obtain ⟨names, conditions, priorities, enabled, actions⟩ := same
    refine ⟨?_, ?_⟩
    · rw [whole, whole']
      exact ⟨names, conditions, priorities, enabled, actions table others ((buildRules_grows _ deeper).trans longer)
        ((buildRules_grows _ deeper').trans longer')⟩
    · refine matched_builtAt below (buildRules_builtAt deeper longer) ?_
      have deeper' := buildRules_builtAt deeper' longer'
      rwa [← priorities] at deeper'
  exact ⟨fun pair => (read pair).1, fun pair => (read pair).2⟩

/-! ## Chains in either order -/

section Chains

variable {related : Rule Condition → Rule Condition → Prop} {snapshot : Snapshot}
  {roots images : List (Rule Condition)}

theorem SameRule.matches_eq {rule rule' : Rule Condition} (same : SameRule table others rule rule') :
    rule.matches language snapshot = rule'.matches language snapshot := by
  rw [Rule.matches, Rule.matches, same.conditions, same.enabled]

/-- Frames of related rules. -/
def Beside (related : Rule Condition → Rule Condition → Prop) (frame frame' : WalkFrame Condition) : Prop :=
  related frame.rule frame'.rule ∧ frame.path = frame'.path

/-- A chain goes through related rules on the other side. -/
theorem Chain.beside (both : Bisimulation table others related) (matched : Matched related roots images)
    {chain : List (WalkFrame Condition)} (upTo : Chain language snapshot roots chain) :
    ∃ chain', Chain language snapshot images chain' ∧ List.Forall₂ (Beside related) chain chain' := by
  induction upTo with
  | @root next rule there matches_ =>
    obtain ⟨image, member, pair⟩ := matched.1 rule (List.mem_of_getElem? there)
    obtain ⟨place, there'⟩ := List.getElem?_of_mem member
    refine ⟨_, .root there' ((both.same pair).matches_eq ▸ matches_), .cons ⟨pair, ?_⟩ .nil⟩
    exact congrArg (joinPath "") (both.same pair).name
  | @exception frame above next rule upTo there matches_ ih =>
    obtain ⟨_, upTo', frames⟩ := ih
    cases frames with
    | @cons _ frame' _ above' first rest =>
      obtain ⟨image, member, pair⟩ := (both.children first.1).1 rule (List.mem_of_getElem? there)
      obtain ⟨place, there'⟩ := List.getElem?_of_mem member
      refine ⟨_, upTo'.exception there' ((both.same pair).matches_eq ▸ matches_), .cons ⟨pair, ?_⟩ (.cons first rest)⟩
      exact congrArg₂ joinPath first.2 (both.same pair).name

theorem SameRule.hasDirectVerdict_eq {rule rule' : Rule Condition} (same : SameRule table others rule rule') :
    rule.hasDirectVerdict = rule'.hasDirectVerdict := by
  rw [← resolveRule_isSome, ← resolveRule_isSome]
  have resolved := same.resolve
  generalize resolveRule rule = verdict, resolveRule rule' = verdict' at resolved ⊢
  cases resolved with
  | some => rfl
  | none => rfl

theorem speaker_beside (both : Bisimulation table others related) {chain chain' : List (WalkFrame Condition)}
    (frames : List.Forall₂ (Beside related) chain chain') {frame : WalkFrame Condition}
    (spokenFor : speaker chain = some frame) : ∃ frame', speaker chain' = some frame' ∧ Beside related frame frame' := by
  induction frames with
  | nil => cases spokenFor
  | @cons first first' rest rest' here _ ih =>
    have same := (both.same here.1).hasDirectVerdict_eq
    rw [speaker, List.find?_cons] at spokenFor ⊢
    rw [← same]
    cases direct : first.rule.hasDirectVerdict with
    | true =>
      rw [direct] at spokenFor
      obtain rfl := Option.some.inj spokenFor
      exact ⟨first', rfl, here⟩
    | false =>
      rw [direct] at spokenFor
      exact ih spokenFor

/-- What is told, in either order. -/
structure SameCandidate (table others : List String) (candidate candidate' : VerdictCandidate) : Prop where
  verdict : SameVerdict table others candidate.verdict candidate'.verdict
  priority : candidate.priority = candidate'.priority
  rule : candidate.rule = candidate'.rule

theorem Told.beside (both : Bisimulation table others related) (matched : Matched related roots images)
    {candidate : VerdictCandidate} (told : Told language snapshot roots candidate) :
    ∃ candidate', Told language snapshot images candidate' ∧ SameCandidate table others candidate candidate' := by
  obtain ⟨frame, ⟨last, above, ⟨upTo, unexcepted⟩, spokenFor⟩, tells⟩ := told
  obtain ⟨_, upTo', frames⟩ := upTo.beside both matched
  obtain ⟨frame', spokenFor', pair, path⟩ := speaker_beside both frames spokenFor
  cases frames with
  | @cons _ last' _ above' first rest =>
    have unexcepted' : ¬ Excepted language snapshot last'.rule := by
      rintro ⟨child', member', matches_⟩
      obtain ⟨child, member, pair⟩ := (both.children first.1).2 child' member'
      exact unexcepted ⟨child, member, (both.same pair).matches_eq.trans matches_⟩
    have resolved := (both.same pair).resolve
    rw [WalkFrame.candidate] at tells
    cases own : resolveRule frame.rule with
    | none =>
      rw [own] at tells
      cases tells
    | some verdict =>
      rw [own] at tells resolved
      obtain rfl := Option.some.inj tells
      cases own' : resolveRule frame'.rule with
      | none =>
        rw [own'] at resolved
        cases resolved
      | some verdict' =>
        rw [own'] at resolved
        cases resolved with
        | some same =>
          refine ⟨⟨verdict', frame'.rule.priority, frame'.path⟩, ?_, same, (both.same pair).priority, path⟩
          refine ⟨frame', ⟨last', above', ⟨upTo', unexcepted'⟩, spokenFor'⟩, ?_⟩
          rw [WalkFrame.candidate, own']
          rfl

end Chains

/-! ## The tables -/

/-- An action joins the entry of a table. -/
def JoinedBy (table : List String) (actions : List Action) (target : String) : Prop :=
  ∃ index, .verdict (.join index) ∈ actions ∧ table[index]? = some target

theorem JoinedBy.mono {actions more : List Action} {target : String} (joined : JoinedBy table actions target)
    (longer : table <+: others) (subset : actions ⊆ more) : JoinedBy others more target := by
  obtain ⟨index, member, there⟩ := joined
  exact ⟨index, subset member, getElem?_of_longer longer there⟩

/-- A table that has no doubles and names nothing that is not joined. -/
structure Tabled (start : Collector) (state : List Action × Collector) : Prop where
  distinct : Distinct start.profiles → Distinct state.2.profiles
  joined : ∀ target ∈ state.2.profiles, target ∈ start.profiles ∨ JoinedBy state.2.profiles state.1 target

theorem Tabled.still {start collector : Collector} {actions : List Action} (tabled : Tabled start (actions, collector))
    (action : Action) : Tabled start (actions ++ [action], collector) where
  distinct := tabled.distinct
  joined target member := (tabled.joined target member).imp_right fun joined =>
    joined.mono List.prefix_rfl (List.subset_append_left _ _)

theorem Tabled.note {start collector : Collector} {actions : List Action} (tabled : Tabled start (actions, collector))
    (profile : String) :
    Tabled start (actions ++ [.verdict (.join (collector.noteProfile profile).1)], (collector.noteProfile profile).2) := by
  rw [Collector.noteProfile]
  split
  · exact tabled.still _
  · rename_i new
    constructor
    · intro clean
      change ((collector.profiles ++ [profile]).map toAsciiLowercase).Nodup
      rw [List.map_append]
      refine List.nodup_append.mpr ⟨tabled.distinct clean, List.nodup_singleton _, ?_⟩
      rintro lower before other last rfl
      obtain ⟨known, member, rfl⟩ := List.mem_map.mp before
      have differs := List.findIdx?_eq_none_iff.mp new known member
      rw [eqIgnoreAsciiCase, beq_eq_false_iff_ne] at differs
      exact differs (List.mem_singleton.mp last)
    · intro target member
      obtain before | last := List.mem_append.mp member
      · exact (tabled.joined target before).imp_right fun joined =>
          joined.mono (List.prefix_append _ _) (List.subset_append_left _ _)
      · obtain rfl := List.mem_singleton.mp last
        exact .inr ⟨collector.profiles.length, by simp, by simp⟩

theorem takeAction_tabled {path : String} {start : Collector} {state next : List Action × Collector} {item : RegValue}
    (tabled : Tabled start state) (run : takeAction path state item = .ok next) : Tabled start next := by
  rw [takeAction] at run
  cases text : item.asStr with
  | none =>
    rw [text] at run
    cases run
  | some expr =>
    rw [text] at run
    cases parsed : parseAction expr with
    | error detail =>
      simp only [parsed] at run
      cases run
    | ok action =>
      simp only [parsed] at run
      obtain ⟨⟨one, after⟩, put, run⟩ := Fallible.bind_eq_ok.mp run
      obtain rfl := Except.ok.inj run
      rw [placeAction.eq_def] at put
      split at put
      · obtain ⟨rfl, rfl⟩ := Prod.mk.inj (Except.ok.inj put)
        exact tabled.still _
      · obtain ⟨rfl, rfl⟩ := Prod.mk.inj (Except.ok.inj put)
        exact tabled.still _
      · split_ifs at put
        obtain ⟨rfl, rfl⟩ := Prod.mk.inj (Except.ok.inj put)
        exact tabled.still _
      · obtain ⟨rfl, rfl⟩ := Prod.mk.inj (Except.ok.inj put)
        exact tabled.note _
      · cases put
      · cases put
      · cases put

theorem takeRuleValue_tabled {path : String} {start : Collector} {draft next : Draft Condition}
    {entry : String × RegValue} (tabled : Tabled start (draft.actions, draft.collector))
    (run : takeRuleValue language path draft entry = .ok next) : Tabled start (next.actions, next.collector) := by
  obtain ⟨key, value⟩ := entry
  rw [takeRuleValue.eq_def] at run
  dsimp only at run
  split at run
  · split at run
    · obtain rfl := Except.ok.inj run
      exact tabled
    · cases run
  · split at run
    · obtain rfl := Except.ok.inj run
      exact tabled
    · obtain rfl := Except.ok.inj run
      exact tabled
    · cases run
  · split at run
    · obtain ⟨⟨actions, collector⟩, folded, run⟩ := Fallible.bind_eq_ok.mp run
      obtain rfl := Except.ok.inj run
      exact Fallible.foldlM_invariant (fun _ _ _ _ tabled run => takeAction_tabled tabled run) tabled folded
    · cases run
  · obtain ⟨⟨condition, never⟩, -, run⟩ := Fallible.bind_eq_ok.mp run
    dsimp only at run
    have kept (lints : List LintWarning) : Tabled start (draft.actions, { draft.collector with lints }) :=
      ⟨tabled.distinct, tabled.joined⟩
    by_cases live : language.isLiveTime condition = true
    · rw [if_pos live] at run
      obtain rfl := Except.ok.inj run
      exact kept _
    · rw [if_neg live] at run
      obtain rfl := Except.ok.inj run
      exact kept _

theorem buildNode_tabled {path name : String} {priority : ℤ} {before after : Collector}
    {values : List (String × RegValue)} {node : Rule Condition}
    (run : buildNode language path priority before name values = .ok (node, after)) :
    Tabled before (node.actions, after) := by
  rw [buildNode] at run
  dsimp only at run
  split_ifs at run
  · cases run
  obtain ⟨draft, folded, run⟩ := Fallible.bind_eq_ok.mp run
  obtain ⟨rfl, rfl⟩ := Prod.mk.inj (Except.ok.inj run)
  have start : Tabled before (({ priority, collector := before } : Draft Condition).actions, before) :=
    ⟨id, fun _ member => .inl member⟩
  have keeps : ∀ draft, ∀ entry ∈ values, ∀ next : Draft Condition, Tabled before (draft.actions, draft.collector) →
      takeRuleValue language (joinPath path name) draft entry = .ok next →
      Tabled before (next.actions, next.collector) :=
    fun _ _ _ _ tabled run => takeRuleValue_tabled tabled run
  exact Fallible.foldlM_invariant keeps start folded

/-- A table after a build has no doubles, and some rule joins whatever was added to it. -/
def Grown (parentPath : String) (before after : Collector) (built : List (Rule Condition)) : Prop :=
  (Distinct before.profiles → Distinct after.profiles) ∧ ∀ target ∈ after.profiles, target ∈ before.profiles ∨
    ∃ path node, rules.Reached parentPath built path node ∧ JoinedBy after.profiles node.actions target

mutual

theorem buildRule_grown {path : String} {priority : ℤ} {before after : Collector} : (input : RuleInput) →
    {rule : Rule Condition} → buildRule language path priority before input = .ok (rule, after) →
    Grown path before after [rule]
  | ⟨name, values, children⟩, rule, run => by
    obtain ⟨node, middle, built, deeper, whole⟩ := buildRule_node.mp run
    obtain ⟨distinct, joined⟩ := buildNode_tabled built
    obtain ⟨distinct', below⟩ := buildRules_grown children deeper
    have named : joinPath path rule.name = joinPath path name := by rw [whole, (buildNode_ok built).1]
    have actions : rule.actions = node.actions := by rw [whole]
    refine ⟨fun clean => distinct' (distinct clean), fun target member => ?_⟩
    obtain earlier | ⟨at_, other, reached, joins⟩ := below target member
    · obtain before | joins := joined target earlier
      · exact .inl before
      · refine .inr ⟨_, rule, .here List.mem_cons_self, actions ▸ joins.mono (buildRules_grows _ deeper) ?_⟩
        exact List.Subset.refl _
    · refine .inr ⟨at_, other, .under List.mem_cons_self ?_, joins⟩
      change rules.Reached (joinPath path rule.name) rule.children at_ other
      rwa [named]

theorem buildRules_grown {path : String} {priority : ℤ} {before after : Collector} : (siblings : List RuleInput) →
    {built : List (Rule Condition)} → buildRules language path priority before siblings = .ok (built, after) →
    Grown path before after built
  | [], built, run => by
    rw [buildRules] at run
    obtain ⟨rfl, rfl⟩ := Prod.mk.inj (Except.ok.inj run)
    exact ⟨id, fun target member => .inl member⟩
  | input :: rest, built, run => by
    obtain ⟨rule, others, middle, rfl, first, later⟩ := buildRules_cons run
    obtain ⟨distinct, here⟩ := buildRule_grown input first
    obtain ⟨distinct', there⟩ := buildRules_grown rest later
    refine ⟨fun clean => distinct' (distinct clean), fun target member => ?_⟩
    obtain earlier | ⟨at_, node, reached, joins⟩ := there target member
    · refine (here target earlier).imp_right ?_
      rintro ⟨at_, node, reached, joins⟩
      exact ⟨at_, node, reached.mono (by simp), joins.mono (buildRules_grows rest later) (List.Subset.refl _)⟩
    · exact .inr ⟨at_, node, reached.mono (List.subset_cons_self _ _), joins⟩

end

/-! ## The best of those who speak -/

section Best

/-- Whatever is said on one side is said on the other. -/
def Mirrored (table others : List String) (candidates candidates' : List VerdictCandidate) : Prop :=
  ∀ c ∈ candidates, ∃ c' ∈ candidates', SameCandidate table others c c'

variable {candidates candidates' : List VerdictCandidate} {top top' : VerdictCandidate}

theorem SameCandidate.rank {c c' : VerdictCandidate} (same : SameCandidate table others c c') : c.rank = c'.rank := by
  rw [VerdictCandidate.rank, VerdictCandidate.rank, same.priority, same.verdict.strictness]

theorem rank_le_of_mirrored (there : Mirrored table others candidates candidates')
    (won : winner candidates = some top) (won' : winner candidates' = some top') : top.rank ≤ top'.rank := by
  obtain ⟨c', member, same⟩ := there top (mem_of_winner won)
  exact same.rank.trans_le (rank_le_of_winner won' c' member)

/-- A draw on one side is a draw on the other: of two verdicts that differ one differs from any third. -/
theorem tied_of_mirrored (distinct : Distinct table) (there : Mirrored table others candidates candidates')
    (won : winner candidates = some top) (rank : top.rank = top'.rank)
    (draw : candidates.any (tied top) = true) : candidates'.any (tied top') = true := by
  obtain ⟨c, member, both⟩ := List.any_eq_true.mp draw
  obtain ⟨level, differs⟩ := tied_iff.mp both
  obtain ⟨c', member', same⟩ := there c member
  obtain ⟨t', also', also⟩ := there top (mem_of_winner won)
  rw [List.any_eq_true]
  by_cases first : c'.verdict = top'.verdict
  · refine ⟨t', also', tied_iff.mpr ⟨also.rank.symm.trans rank, fun second => differs ?_⟩⟩
    exact same.verdict.symm.eq_of_eq distinct also.verdict.symm (first.trans second.symm)
  · exact ⟨c', member', tied_iff.mpr ⟨same.rank.symm.trans (level.trans rank), first⟩⟩

theorem mem_rivals (won : winner candidates = some top) {rule : String} :
    rule ∈ rivals candidates ↔ ∃ c ∈ candidates, c.priority = top.priority ∧ c.rule = rule := by
  have highest : (candidates.map VerdictCandidate.priority).max? = some top.priority := by
    refine List.max?_eq_some_iff.mpr ⟨List.mem_map_of_mem (mem_of_winner won), fun priority member => ?_⟩
    obtain ⟨c, there, rfl⟩ := List.mem_map.mp member
    obtain below | ⟨level, -⟩ := Prod.Lex.toLex_le_toLex.mp (rank_le_of_winner won c there)
    · exact below.le
    · exact level.le
  simp only [rivals, highest, Option.getD_some, List.mem_collect, List.mem_map, List.mem_filter, beq_iff_eq, and_assoc]

theorem rivals_subset (there : Mirrored table others candidates candidates') (won : winner candidates = some top)
    (won' : winner candidates' = some top') (rank : top.rank = top'.rank) : rivals candidates ⊆ rivals candidates' := by
  intro rule member
  obtain ⟨c, there_, level, rfl⟩ := (mem_rivals won).mp member
  obtain ⟨c', member', same⟩ := there c there_
  have priority : top.priority = top'.priority := (Prod.mk.inj (toLex_inj.mp rank)).1
  exact (mem_rivals won').mpr ⟨c', member', same.priority.symm.trans (level.trans priority), same.rule.symm⟩

/-- Two forests in which the same is said judge alike. -/
theorem evaluate_mirrored {forest forest' : Forest Condition} {snapshot : Snapshot}
    (distinct : Distinct forest.profiles) (distinct' : Distinct forest'.profiles)
    (there : Mirrored forest.profiles forest'.profiles (evaluate language forest snapshot).candidates
      (evaluate language forest' snapshot).candidates)
    (back : Mirrored forest'.profiles forest.profiles (evaluate language forest' snapshot).candidates
      (evaluate language forest snapshot).candidates) :
    let e := evaluate language forest snapshot
    let e' := evaluate language forest' snapshot
    e.backstop = e'.backstop ∧ e.conflict = e'.conflict ∧ (e.conflict = true → rivals e.candidates = rivals e'.candidates) ∧
      (e.conflict = false → SameVerdict forest.profiles forest'.profiles e.verdict e'.verdict) := by
  intro e e'
  obtain ⟨nobody, backstop, ignored, agreed⟩ | ⟨top, won, own, verdict, -, conflict⟩ :=
    evaluate_cases language forest snapshot
  all_goals obtain ⟨nobody', backstop', ignored', agreed'⟩ | ⟨top', won', own', verdict', -, conflict'⟩ :=
    evaluate_cases language forest' snapshot
  · refine ⟨backstop.trans backstop'.symm, agreed.trans agreed'.symm, fun draw => ?_, fun _ => ?_⟩
    · cases agreed.symm.trans draw
    · rw [ignored, ignored']
      exact .plain nofun
  · obtain ⟨c, member, -⟩ := back top' (mem_of_winner won')
    rw [winner_none nobody] at member
    cases member
  · obtain ⟨c, member, -⟩ := there top (mem_of_winner won)
    rw [winner_none nobody'] at member
    cases member
  · have rank := (rank_le_of_mirrored there won won').antisymm (rank_le_of_mirrored back won' won)
    refine ⟨own.trans own'.symm, ?_, fun _ => ?_, fun clear => ?_⟩
    · rw [conflict, conflict', Bool.eq_iff_iff]
      exact ⟨tied_of_mirrored distinct there won rank, tied_of_mirrored distinct' back won' rank.symm⟩
    · exact List.eq_of_pairwise_lt (List.collect_pairwise _) (List.collect_pairwise _) fun rule =>
        ⟨fun member => rivals_subset there won won' rank member,
          fun member => rivals_subset back won' won rank.symm member⟩
    · obtain ⟨c', member', same⟩ := there top (mem_of_winner won)
      have level : c'.rank = top'.rank := same.rank.symm.trans rank
      have undrawn : ¬ e'.candidates.any (tied top') = true := by
        intro draw
        have draw := tied_of_mirrored distinct' back won' rank.symm draw
        rw [← conflict, clear] at draw
        cases draw
      have only : c'.verdict = top'.verdict := by
        by_contra differs
        exact undrawn (List.any_eq_true.mpr ⟨c', member', tied_iff.mpr ⟨level, differs⟩⟩)
      rw [verdict, verdict', ← only]
      exact same.verdict

end Best

/-! ## A generation, in either order -/

/-- The same rule key, apart from its subkeys. -/
def SameKey (key other : RawKey) : Prop := key.name = other.name ∧ key.values = other.values

theorem lowerAll_append {profiles : Profiles} {path : String} (before after : List RawKey) {lowered : List RuleInput} :
    lowerAll profiles path (before ++ after) = .ok lowered ↔
      ∃ first second, lowerAll profiles path before = .ok first ∧ lowerAll profiles path after = .ok second ∧
        lowered = first ++ second := by
  induction before generalizing lowered with
  | nil =>
    constructor
    · exact fun run => ⟨[], lowered, rfl, run, rfl⟩
    · rintro ⟨first, second, nothing, run, rfl⟩
      obtain rfl := Except.ok.inj nothing
      exact run
  | cons key rest ih =>
    rw [List.cons_append, lowerAll, lowerAll]
    constructor
    · intro run
      obtain ⟨input, one, run⟩ := Fallible.bind_eq_ok.mp run
      obtain ⟨inputs, later, run⟩ := Fallible.bind_eq_ok.mp run
      obtain rfl := Except.ok.inj run
      obtain ⟨first, second, front, back, rfl⟩ := ih.mp later
      refine ⟨input :: first, second, ?_, back, rfl⟩
      rw [one, Fallible.ok_bind, front]
      rfl
    · rintro ⟨first, second, run, back, rfl⟩
      obtain ⟨input, one, run⟩ := Fallible.bind_eq_ok.mp run
      obtain ⟨inputs, later, run⟩ := Fallible.bind_eq_ok.mp run
      obtain rfl := Except.ok.inj run
      rw [one, Fallible.ok_bind, ih.mpr ⟨inputs, second, later, back, rfl⟩]
      rfl

theorem lowerAll_rearranged {profiles : Profiles} {siblings images : List RawKey}
    (same : keys.Rearranged keys SameKey siblings images) : ∀ {path : String} {lowered : List RuleInput},
    lowerAll profiles path siblings = .ok lowered →
      ∃ lowered', lowerAll profiles path images = .ok lowered' ∧ inputs.Rearranged inputs SameInput lowered lowered' := by
  induction same with
  | nil =>
    intro path lowered run
    obtain rfl := Except.ok.inj run
    exact ⟨[], rfl, .nil⟩
  | @cons tree image trees before after here below beside deeper ih =>
    intro path lowered run
    obtain ⟨input, one, run⟩ := Fallible.bind_eq_ok.mp run
    obtain ⟨rest, later, run⟩ := Fallible.bind_eq_ok.mp run
    obtain rfl := Except.ok.inj run
    obtain ⟨_, run', others⟩ := ih later
    obtain ⟨first, second, front, back, rfl⟩ := (lowerAll_append before after).mp run'
    obtain ⟨named, values, under⟩ := lower_ok one
    obtain ⟨under', deep, exceptions⟩ := deeper under
    have image_ok : lower profiles path image = .ok ⟨image.name, input.values, under'⟩ := by
      obtain ⟨names, listed⟩ := here
      obtain ⟨name, values', children⟩ := image
      obtain rfl : tree.name = name := names
      obtain rfl : tree.values = values' := listed
      have deep : lowerAll profiles (joinPath path tree.name) children = .ok under' := deep
      rw [lower, values, Fallible.ok_bind, deep]
      rfl
    refine ⟨first ++ ⟨image.name, input.values, under'⟩ :: second, ?_, .cons ⟨named.trans here.1, rfl⟩ exceptions others⟩
    refine (lowerAll_append before (image :: after)).mpr ⟨first, _, front, ?_, rfl⟩
    rw [lowerAll, image_ok, Fallible.ok_bind, back]
    rfl

theorem Bisimulation.simulation {related : Rule Condition → Rule Condition → Prop}
    (both : Bisimulation table others related) : Rose.Simulation rules rules related where
  extend pair path := congrArg (joinPath path) (both.same pair).name
  children pair child member := (both.children pair).1 child member

/-- Whatever is joined on one side is joined on the other, up to case. -/
theorem exists_joined {related : Rule Condition → Rule Condition → Prop} (both : Bisimulation table others related)
    {siblings images : List (Rule Condition)} (matched : Matched related siblings images) {start path : String}
    {node : Rule Condition} (reached : rules.Reached start siblings path node) {target : String}
    (joined : JoinedBy table node.actions target) :
    ∃ target' ∈ others, toAsciiLowercase target = toAsciiLowercase target' := by
  obtain ⟨node', -, pair⟩ := reached.simulate both.simulation matched.1
  obtain ⟨index, member, there⟩ := joined
  obtain ⟨action, -, same⟩ := exists_of_forall₂ (both.same pair).actions _ member
  cases same with
  | verdict same =>
    cases same with
    | join again there' spelled =>
      obtain rfl := Option.some.inj (there.symm.trans again)
      exact ⟨_, List.mem_of_getElem? there', spelled⟩
    | plain other => exact absurd rfl (other index)
  | plain other => exact absurd rfl (other _)

/-- Two generations from the same rules, with the same profiles. -/
structure Rebuilt (language : Conditions Condition Snapshot) (policy policy' : Policy Condition)
    (forest forest' : Forest Condition) : Prop where
  judged : policy.forest = some forest
  judged' : policy'.forest = some forest'
  profiles : policy'.profiles = policy.profiles
  distinct : Distinct forest.profiles
  distinct' : Distinct forest'.profiles
  matched : Matched (Paired language forest.profiles forest'.profiles) forest.roots forest'.roots

theorem build_rearranged {root other : RawKey} {profiles : Option RawKey} {policy : Policy Condition}
    (built : build language (some root) profiles = .ok policy)
    (same : keys.Rearranged keys SameKey root.children other.children) :
    ∃ policy' forest forest', build language (some other) profiles = .ok policy' ∧
      Rebuilt language policy policy' forest forest' := by
  obtain ⟨-, resolved, -, whole⟩ := build_ok built
  obtain ⟨lowered, ⟨roots, table⟩, after, handed, run, rfl, there, known⟩ := buildRulesOver_ok (whole root rfl)
  obtain ⟨lowered', handed', rearranged⟩ := lowerAll_rearranged same handed
  obtain ⟨⟨roots', after'⟩, run'⟩ :=
    buildRules_of_buildable (Buildable.rearranged rearranged (buildRules_any lowered run)) {}
  have matched := matched_builtAt rearranged (buildRules_builtAt run List.prefix_rfl)
    (buildRules_builtAt run' List.prefix_rfl)
  have bisimulation := paired_bisimulation language after.profiles after'.profiles
  have unknown : after'.profiles.find? (fun path => (policy.profiles.lookup (toAsciiLowercase path)).isNone) = none := by
    refine List.find?_eq_none.mpr fun target' member => ?_
    obtain nothing | ⟨path, node, reached, joined⟩ := (buildRules_grown lowered' run').2 target' member
    · cases nothing
    · obtain ⟨target, there, spelled⟩ := exists_joined bisimulation.flip matched.flip reached joined
      obtain ⟨p, found⟩ := known target there
      rw [spelled, found]
      exact Bool.false_ne_true
  let forest' : Forest Condition := ⟨roots', after'.profiles⟩
  have forest_ok : (buildForest language lowered').mapError PolicyError.forest = .ok (forest', after'.lints) := by
    rw [buildForest, run']
    rfl
  let policy' : Policy Condition := { forest := some forest', profiles := policy.profiles
                                      lints := after'.lints.map fun l => s!"rule {l.rule}: {l.key} can never hold at the interface layer" }
  refine ⟨policy', _, forest', ?_, there, rfl, rfl, ?_, ?_, matched⟩
  · rw [build, resolved, Fallible.ok_bind]
    dsimp only
    rw [buildRulesOver, handed', Fallible.ok_bind, forest_ok, Fallible.ok_bind]
    dsimp only [forest']
    rw [unknown]
    rfl
  · exact (buildRules_grown lowered run).1 List.nodup_nil
  · exact (buildRules_grown lowered' run').1 List.nodup_nil

theorem outcomeOf_same {policy policy' : Policy Condition} {forest forest' : Forest Condition}
    (profiles : policy'.profiles = policy.profiles) {verdict verdict' : Verdict}
    (same : SameVerdict forest.profiles forest'.profiles verdict verdict') :
    policy.outcomeOf forest verdict = policy'.outcomeOf forest' verdict' := by
  cases same with
  | join there there' spelled =>
    rw [outcomeOf, outcomeOf, there, there', Option.bind_some, Option.bind_some, profiles, spelled]
  | plain other =>
    cases verdict with
    | join index => exact absurd rfl (other index)
    | _ => rfl

theorem mirrored_of_matched {forest forest' : Forest Condition} {related : Rule Condition → Rule Condition → Prop}
    (both : Bisimulation table others related) (matched : Matched related forest.roots forest'.roots)
    (snapshot : Snapshot) :
    Mirrored table others (evaluate language forest snapshot).candidates
      (evaluate language forest' snapshot).candidates := by
  intro c member
  obtain ⟨c', told, same⟩ := (mem_candidates_iff.mp member).beside both matched
  exact ⟨c', mem_candidates_iff.mpr told, same⟩

/-- Rules in another order, at any level, make a generation that judges every interface alike: it joins the same
profile, falls to the backstop and is in conflict in the same cases, and a conflict names the same rules. -/
theorem order_carries_no_meaning {root other : RawKey} {profiles : Option RawKey} {policy : Policy Condition}
    (built : build language (some root) profiles = .ok policy)
    (same : keys.Rearranged keys SameKey root.children other.children) :
    ∃ policy', build language (some other) profiles = .ok policy' ∧ ∀ snapshot,
      let j := policy.judge language snapshot
      let j' := policy'.judge language snapshot
      j.outcome = j'.outcome ∧ j.backstop = j'.backstop ∧ j.conflict = j'.conflict ∧
        (j.conflict = true → j.rule = j'.rule) := by
  obtain ⟨policy', forest, forest', built', rebuilt⟩ := build_rearranged built same
  refine ⟨policy', built', fun snapshot => ?_⟩
  have both := paired_bisimulation language forest.profiles forest'.profiles
  obtain ⟨backstop, conflict, rivals, verdict⟩ := evaluate_mirrored rebuilt.distinct rebuilt.distinct'
    (mirrored_of_matched both rebuilt.matched snapshot) (mirrored_of_matched both.flip rebuilt.matched.flip snapshot)
  rw [judge_eq rebuilt.judged, judge_eq rebuilt.judged']
  cases draw : (evaluate language forest snapshot).conflict with
  | true =>
    rw [draw] at conflict
    rw [← conflict, if_pos rfl, if_pos rfl, rivals draw]
    exact ⟨rfl, rfl, rfl, fun _ => rfl⟩
  | false =>
    rw [draw] at conflict
    rw [← conflict, if_neg Bool.false_ne_true, if_neg Bool.false_ne_true]
    exact ⟨outcomeOf_same rebuilt.profiles (verdict draw), backstop, rfl, fun conflict => by cases conflict⟩

/-- Two rules that draw, in either order. -/
theorem draw_either_order :
    ∃ policy policy',
      build unconditional (some ⟨"Interface", [], [ruleKey "r" ["JOIN(a)"] [], ruleKey "s" ["JOIN(b)"] []]⟩)
        (some (twoProfiles 1)) = .ok policy ∧
      build unconditional (some ⟨"Interface", [], [ruleKey "s" ["JOIN(b)"] [], ruleKey "r" ["JOIN(a)"] []]⟩)
        (some (twoProfiles 1)) = .ok policy' ∧
      ∀ snapshot,
        let j := policy.judge unconditional snapshot
        let j' := policy'.judge unconditional snapshot
        j.outcome = j'.outcome ∧ j.backstop = j'.backstop ∧ j.conflict = j'.conflict ∧
          (j.conflict = true → j.rule = j'.rule) := by
  have made : verdictAndJoin ⟨"Interface", [], [ruleKey "r" ["JOIN(a)"] [], ruleKey "s" ["JOIN(b)"] []]⟩
      (twoProfiles 1) = some (.join 0, false) := by decide +kernel
  obtain ⟨policy, -, built, -, -, -⟩ := verdictAndJoin_eq made
  have last : keys.Rearranged keys SameKey [ruleKey "s" ["JOIN(b)"] []] ([] ++ ruleKey "s" ["JOIN(b)"] [] :: []) :=
    .cons ⟨rfl, rfl⟩ .nil .nil
  have swapped : keys.Rearranged keys SameKey [ruleKey "r" ["JOIN(a)"] [], ruleKey "s" ["JOIN(b)"] []]
      ([ruleKey "s" ["JOIN(b)"] []] ++ ruleKey "r" ["JOIN(a)"] [] :: []) :=
    .cons ⟨rfl, rfl⟩ .nil last
  let other : RawKey := ⟨"Interface", [], [ruleKey "s" ["JOIN(b)"] [], ruleKey "r" ["JOIN(a)"] []]⟩
  obtain ⟨policy', built', alike⟩ := @order_carries_no_meaning _ _ unconditional _ other _ _ built swapped
  exact ⟨policy, policy', built, built', alike⟩

end Netd.Model.Policy
