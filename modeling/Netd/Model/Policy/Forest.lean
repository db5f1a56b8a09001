import Netd.Model.Profile
import Netd.Model.Policy.Action

/-! # Rule forests

Ingestion and evaluation of the vendored `pnp_core` (`ingest.rs`, `rule.rs`, `eval.rs`) at the interface
layer, the only one netd builds. Conditions are read and asked by a condition language that is not
looked into: `Conditions` stands for `parse_condition` with `lint_condition`, and for
`Condition::matches`. At this layer no action writes a tag or a stream and no condition reads one, so
of what ingestion collects only the profile paths and the lints are kept; reports and the expiry of
live-time answers, which netd does not read, are left out. The explicit stacks of the source are
recursion over the tree here.
-/

namespace Netd.Model.Policy

/-- One registry value, as ingestion receives it. -/
inductive RegValue where
  | int (value : ℤ)
  | str (text : String)
  | list (items : List RegValue)
deriving Repr

namespace RegValue

def asInt : RegValue → Option ℤ
  | int value => some value
  | str _ | list _ => none

def asStr : RegValue → Option String
  | str text => some text
  | int _ | list _ => none

end RegValue

/-- One rule key: its name, its values, and its subkeys. -/
structure RuleInput where
  name : String
  values : List (String × RegValue)
  children : List RuleInput
deriving Repr

/-- Why a forest was rejected, with the path of the rule. -/
inductive BuildError where
  | unknownFact (rule key : String)
  | badOperator (rule key : String)
  | badPattern (rule key : String)
  | badCounterView (rule key : String)
  | badActionsValue (rule : String)
  | badAction (rule : String) (detail : ActionParseError)
  | badPriority (rule : String)
  | badEnabled (rule : String)
  | badRuleName (rule : String)
  | presentNeverAtLayer (rule key : String)
  | keyNotAtLayer (rule key : String)
  | actionNotAtLayer (rule : String)
deriving DecidableEq, Repr

/-- A condition over a fact that never exists at the layer. -/
structure LintWarning where
  rule : String
  key : String
deriving DecidableEq, Repr

/-- A condition language: how a value of a rule is read, with whether it can never hold at the layer,
which conditions read the clock, and what holds of a snapshot. -/
structure Conditions (Condition Snapshot : Type) where
  parse : (path key : String) → RegValue → Except BuildError (Condition × Bool)
  isLiveTime : Condition → Bool
  holds : Condition → Snapshot → Bool

/-- One rule: its match, its standing, its actions, and its exceptions. -/
structure Rule (Condition : Type) where
  name : String
  conditions : List Condition
  priority : ℤ
  enabled : Bool
  actions : List Action
  children : List (Rule Condition)

/-- The rule trees and the profile paths their joins index. -/
structure Forest (Condition : Type) where
  roots : List (Rule Condition)
  profiles : List String

/-! ## Ingestion -/

/-- What ingestion collects over the whole forest. -/
structure Collector where
  profiles : List String := []
  lints : List LintWarning := []
deriving DecidableEq, Repr

/-- The index of a profile path in the table, which keeps the first spelling of each. -/
def Collector.noteProfile (collector : Collector) (path : String) : ℕ × Collector :=
  match collector.profiles.findIdx? fun known => eqIgnoreAsciiCase known path with
  | some index => (index, collector)
  | none => (collector.profiles.length, { collector with profiles := collector.profiles ++ [path] })

/-- The interface layer speaks `JOIN`, `IGNORE`, `DOWN`, `NULL` and `REPORT` and nothing else. -/
def placeAction (path : String) (collector : Collector) : Action → Except BuildError (Action × Collector)
  | .null => .ok (.null, collector)
  | .report level => .ok (.report level, collector)
  | .verdict verdict =>
    if verdict.isInterface then .ok (.verdict verdict, collector) else .error (.actionNotAtLayer path)
  | .join profile =>
    let (index, collector) := collector.noteProfile profile
    .ok (.verdict (.join index), collector)
  | .prompt _ _ | .tag _ _ | .count _ _ => .error (.actionNotAtLayer path)

/-- One element of `Actions`. -/
def takeAction (path : String) (state : List Action × Collector) (item : RegValue) :
    Except BuildError (List Action × Collector) :=
  match item.asStr with
  | none => .error (.badActionsValue path)
  | some expr =>
    match parseAction expr with
    | .error detail => .error (.badAction path detail)
    | .ok action => do
      let (action, collector) ← placeAction path state.2 action
      return (state.1 ++ [action], collector)

/-- A rule while its values are read; live-time conditions are asked last. -/
structure Draft (Condition : Type) where
  conditions : List Condition := []
  timeConditions : List Condition := []
  priority : ℤ
  enabled : Bool := true
  actions : List Action := []
  collector : Collector

section Build

variable {Condition Snapshot : Type} (language : Conditions Condition Snapshot)

/-- One value of a rule. -/
def takeRuleValue (path : String) (draft : Draft Condition) (entry : String × RegValue) :
    Except BuildError (Draft Condition) :=
  match entry.1 with
  | "Priority" =>
    match entry.2.asInt with
    | some priority => .ok { draft with priority }
    | none => .error (.badPriority path)
  | "Enabled" =>
    match entry.2.asInt with
    | some 0 => .ok { draft with enabled := false }
    | some 1 => .ok { draft with enabled := true }
    | _ => .error (.badEnabled path)
  | "Actions" =>
    match entry.2 with
    | .list items => do
      let (actions, collector) ← items.foldlM (takeAction path) (draft.actions, draft.collector)
      return { draft with actions, collector }
    | _ => .error (.badActionsValue path)
  | key => do
    let (condition, never) ← language.parse path key entry.2
    let lints := if never then draft.collector.lints ++ [⟨path, key⟩] else draft.collector.lints
    let draft := { draft with collector := { draft.collector with lints } }
    if language.isLiveTime condition then
      return { draft with timeConditions := draft.timeConditions ++ [condition] }
    else return { draft with conditions := draft.conditions ++ [condition] }

/-- One rule from its own values, without its exceptions. -/
def buildNode (parentPath : String) (parentPriority : ℤ) (collector : Collector) (name : String)
    (values : List (String × RegValue)) : Except BuildError (Rule Condition × Collector) := do
  let path := joinPath parentPath name
  if badKeyName name then throw (.badRuleName path)
  let draft ← values.foldlM (takeRuleValue language path) { priority := parentPriority, collector }
  return ({ name, conditions := draft.conditions ++ draft.timeConditions, priority := draft.priority,
            enabled := draft.enabled, actions := draft.actions, children := [] }, draft.collector)

mutual

/-- A rule and its exceptions, which inherit its priority. -/
def buildRule (parentPath : String) (parentPriority : ℤ) (collector : Collector) :
    RuleInput → Except BuildError (Rule Condition × Collector)
  | ⟨name, values, children⟩ => do
    let (rule, collector) ← buildNode language parentPath parentPriority collector name values
    let (children, collector) ← buildRules (joinPath parentPath name) rule.priority collector children
    return ({ rule with children }, collector)

def buildRules (parentPath : String) (parentPriority : ℤ) (collector : Collector) :
    List RuleInput → Except BuildError (List (Rule Condition) × Collector)
  | [] => return ([], collector)
  | input :: rest => do
    let (rule, collector) ← buildRule parentPath parentPriority collector input
    let (rules, collector) ← buildRules parentPath parentPriority collector rest
    return (rule :: rules, collector)

end

/-- `build_forest(Layer::Interface, …)`: the forest and its lints. -/
def buildForest (roots : List RuleInput) : Except BuildError (Forest Condition × List LintWarning) := do
  let (rules, collector) ← buildRules language "" 0 {} roots
  return (⟨rules, collector.profiles⟩, collector.lints)

/-! ## Evaluation -/

def Rule.matches (rule : Rule Condition) (snapshot : Snapshot) : Bool :=
  rule.enabled && rule.conditions.all fun condition => language.holds condition snapshot

/-- Verdicts beside each other yield the strictest. -/
def resolveAction (verdict : Option Verdict) : Action → Option Verdict
  | .verdict found =>
    match verdict with
    | some current => some (current.strictest found)
    | none => some found
  | _ => verdict

/-- What a rule yields, if anything. Fallbacks do not occur at this layer. -/
def resolveRule (rule : Rule Condition) : Option Verdict := rule.actions.foldl resolveAction none

def Rule.hasDirectVerdict (rule : Rule Condition) : Bool :=
  rule.actions.any fun action =>
    match action with
    | .verdict _ => true
    | _ => false

/-- One yielded verdict. -/
structure VerdictCandidate where
  verdict : Verdict
  priority : ℤ
  rule : String
deriving DecidableEq, Repr

/-- A matched rule on the way down: its path, and where in the forest it stands. -/
structure WalkFrame (Condition : Type) where
  rule : Rule Condition
  path : String
  position : List ℕ

/-- What was said so far, and by which rules for others. -/
structure Speech where
  candidates : List VerdictCandidate := []
  spoken : List (List ℕ) := []
deriving DecidableEq, Repr

/-- A triggered rule speaks, or the nearest rule above that has a verdict does, once. -/
def trigger (done : WalkFrame Condition) (ancestors : List (WalkFrame Condition)) (speech : Speech) : Speech :=
  match resolveRule done.rule with
  | some verdict =>
    { speech with candidates := speech.candidates ++ [⟨verdict, done.rule.priority, done.path⟩] }
  | none =>
    match ancestors.find? fun frame => frame.rule.hasDirectVerdict with
    | none => speech
    | some speaker =>
      if speaker.position ∈ speech.spoken then speech
      else
        let speech := { speech with spoken := speech.spoken ++ [speaker.position] }
        match resolveRule speaker.rule with
        | some verdict =>
          { speech with candidates := speech.candidates ++ [⟨verdict, speaker.rule.priority, speaker.path⟩] }
        | none => speech

mutual

/-- Whether a rule matched, and what it and its exceptions said. -/
def walkRule (snapshot : Snapshot) (ancestors : List (WalkFrame Condition)) (parentPath : String)
    (position : List ℕ) (speech : Speech) : Rule Condition → Bool × Speech
  | ⟨name, conditions, priority, enabled, actions, children⟩ =>
    let rule : Rule Condition := ⟨name, conditions, priority, enabled, actions, children⟩
    if rule.matches language snapshot then
      let frame : WalkFrame Condition := ⟨rule, joinPath parentPath name, position⟩
      let (anyChild, speech) := walkRules snapshot (frame :: ancestors) frame.path position 0 speech children
      (true, if anyChild then speech else trigger frame ancestors speech)
    else (false, speech)

/-- Rules beside each other, the first of them number `next`. -/
def walkRules (snapshot : Snapshot) (ancestors : List (WalkFrame Condition)) (parentPath : String)
    (position : List ℕ) (next : ℕ) (speech : Speech) : List (Rule Condition) → Bool × Speech
  | [] => (false, speech)
  | rule :: rest =>
    let (matched, speech) := walkRule snapshot ancestors parentPath (position ++ [next]) speech rule
    let (others, speech) := walkRules snapshot ancestors parentPath position (next + 1) speech rest
    (matched || others, speech)

end

/-- The result of judging one interface. -/
structure Evaluation where
  verdict : Verdict
  attributedTo : String
  backstop : Bool
  candidates : List VerdictCandidate
  conflict : Bool
deriving DecidableEq, Repr

/-- Highest priority wins, then the strictest, then the first. -/
def winner (candidates : List VerdictCandidate) : Option VerdictCandidate :=
  candidates.foldl (fun winner candidate =>
    match winner with
    | none => some candidate
    | some current =>
      if current.priority < candidate.priority ∨
          (candidate.priority = current.priority ∧ current.verdict.strictness < candidate.verdict.strictness)
      then some candidate else some current) none

/-- Two candidates tied on priority and strictness with different verdicts. -/
def tied (top candidate : VerdictCandidate) : Bool :=
  candidate.priority = top.priority ∧ candidate.verdict.strictness = top.verdict.strictness ∧
    candidate.verdict ≠ top.verdict

def evaluate (forest : Forest Condition) (snapshot : Snapshot) : Evaluation :=
  let candidates := (walkRules language snapshot [] "" [] 0 {} forest.roots).2.candidates
  match winner candidates with
  | some top => ⟨top.verdict, top.rule, false, candidates, candidates.any (tied top)⟩
  | none => ⟨.ignore, "backstop", true, candidates, false⟩

end Build

end Netd.Model.Policy
