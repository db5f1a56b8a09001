import Netd.Model.Policy.Forest

/-! # The interface layer

`netd-core/src/policy.rs`: a generation is built from the rules and the profiles of the registry, refused
as a whole where either is malformed or a `JOIN` names no profile, and judges each interface by its
facts. Before the rules are handed to `pnp_core` a `JOIN` of a disabled profile is made an abstention,
for which netd reads the expression itself.
-/

namespace Netd.Model

/-- A built generation. Without `Rules\Interface` there is no forest. -/
structure Policy (Condition : Type) where
  forest : Option (Policy.Forest Condition) := none
  profiles : Profiles := .empty
  lints : List String := []

namespace Policy

/-- One judgment, with the rule that spoke. -/
structure Judgment where
  outcome : Outcome := .ignore
  rule : String := "backstop"
  backstop : Bool := true
  conflict : Bool := false
deriving DecidableEq, Repr

/-- If an expression is a `JOIN(...)`, its target path, as profiles are looked up. The five characters
in front are ASCII where they pass, so lengths in characters decide as those in octets do. -/
def joinTarget (expr : String) : Option String :=
  let compact := expr.toList.filter fun c => !isAsciiWhitespace c
  if compact.length < 6 || (compact.take 5).map Char.toLower != "join(".toList || compact.getLast? != some ')'
  then none
  else some (toAsciiLowercase (String.ofList (foldSeparators (compact.drop 5).dropLast)))

/-- What is handed on for one action: a join of a disabled profile abstains. -/
def lowerItem (profiles : Profiles) (isActions : Bool) (item : String) : String :=
  match joinTarget item with
  | some target =>
    if isActions then
      match profiles.lookup target with
      | some p => if !p.enabled then "NULL" else item
      | none => item
    else item
  | none => item

/-- Why a generation is refused. -/
inductive PolicyError where
  | profile (error : ProfileError)
  | unsupportedType (rule name : String)
  | forest (error : BuildError)
  | noProfile (path : String)
deriving DecidableEq, Repr

/-- `{:?}` of what is wrong with an action. -/
def ActionParseError.debug : ActionParseError → String
  | unknownAction => "UnknownAction"
  | malformed => "Malformed"
  | badArity => "BadArity"
  | badArgument => "BadArgument"
  | unknownRejectKind => "UnknownRejectKind"

def describe : BuildError → String
  | .unknownFact rule key => s!"rule {rule}: unknown fact {key}"
  | .badOperator rule key => s!"rule {rule}: bad operator in {key}"
  | .badPattern rule key => s!"rule {rule}: bad pattern in {key}"
  | .badCounterView rule key => s!"rule {rule}: bad counter view {key}"
  | .badActionsValue rule => s!"rule {rule}: Actions is not a list"
  | .badAction rule detail => s!"rule {rule}: bad action ({detail.debug})"
  | .badPriority rule => s!"rule {rule}: Priority is not an integer"
  | .badEnabled rule => s!"rule {rule}: Enabled is not 0 or 1"
  | .badRuleName rule => s!"rule {rule}: bad name"
  | .presentNeverAtLayer rule key => s!"rule {rule}: {key} on a fact that never exists at this layer"
  | .keyNotAtLayer rule key => s!"rule {rule}: {key} does not exist at the interface layer"
  | .actionNotAtLayer rule => s!"rule {rule}: an action the interface layer does not speak"

/-- The text of an error; `debug` puts a text between quotes. -/
def PolicyError.text (debug : String → String) : PolicyError → String
  | profile error => error.text debug
  | unsupportedType rule name => s!"rule {rule}: value {name} has an unsupported type"
  | forest error => describe error
  | noProfile path => s!"JOIN({path}) names no profile"

/-- One value of a rule, as `pnp_core` takes it. -/
def lowerValue (profiles : Profiles) (rule : String) (entry : String × RawValue) :
    Except PolicyError (String × RegValue) :=
  match entry.2 with
  | .int value => .ok (entry.1, .int value.toInt)
  | .str text => .ok (entry.1, .str text)
  | .list items =>
    let isActions := eqIgnoreAsciiCase entry.1 "Actions"
    .ok (entry.1, .list (items.map fun item => .str (lowerItem profiles isActions item)))
  | .other => .error (.unsupportedType rule entry.1)

mutual

/-- A rule key and everything under it, as `pnp_core` takes them. -/
def lower (profiles : Profiles) (path : String) : RawKey → Except PolicyError RuleInput
  | ⟨name, values, children⟩ => do
    let rule := joinPath path name
    let values ← values.mapM (lowerValue profiles rule)
    let children ← lowerAll profiles rule children
    return { name, values, children }

def lowerAll (profiles : Profiles) (path : String) : List RawKey → Except PolicyError (List RuleInput)
  | [] => return []
  | key :: rest => do
    let input ← lower profiles path key
    let inputs ← lowerAll profiles path rest
    return input :: inputs

end

section Build

variable {Condition Snapshot : Type} (language : Conditions Condition Snapshot)

/-- A generation over profiles that were read. -/
def buildRulesOver (profiles : Profiles) (rules : RawKey) : Except PolicyError (Policy Condition) := do
  let inputs ← lowerAll profiles "" rules.children
  let (forest, lints) ← (buildForest language inputs).mapError .forest
  match forest.profiles.find? fun path => (profiles.lookup (toAsciiLowercase path)).isNone with
  | some path => throw (.noProfile path)
  | none =>
    return { forest := some forest, profiles
             lints := lints.map fun l => s!"rule {l.rule}: {l.key} can never hold at the interface layer" }

/-- The profiles under the `Profiles` key, if there is one. -/
def resolveProfiles : Option RawKey → Except PolicyError Profiles
  | some root => (resolve root).mapError .profile
  | none => .ok .empty

/-- A generation: `rules` is the `Rules\Interface` key, `profiles` the `Profiles` key. -/
def build (rules profiles : Option RawKey) : Except PolicyError (Policy Condition) := do
  let profiles ← resolveProfiles profiles
  match rules with
  | none => return { profiles }
  | some rules => buildRulesOver language profiles rules

/-- The rules at the highest priority, which a conflict names. -/
def rivals (candidates : List VerdictCandidate) : List String :=
  let top := (candidates.map VerdictCandidate.priority).max?.getD 0
  ((candidates.filter fun c => c.priority == top).map VerdictCandidate.rule).collect

/-- What a verdict means. An index outside the table would be a panic of the source and is left to
the fallback here, as is a path without a profile. -/
def outcomeOf (policy : Policy Condition) (forest : Forest Condition) : Verdict → Outcome
  | .join index =>
    match forest.profiles[index]?.bind fun path => policy.profiles.lookup (toAsciiLowercase path) with
    | some p => .join p
    | none => .ignore
  | .down => .down
  | _ => .ignore

/-- Judges one interface. -/
def judge (policy : Policy Condition) (snapshot : Snapshot) : Judgment :=
  match policy.forest with
  | none => {}
  | some forest =>
    let e := evaluate language forest snapshot
    if e.conflict then
      { outcome := .ignore, rule := " vs ".intercalate (rivals e.candidates), backstop := false, conflict := true }
    else
      { outcome := policy.outcomeOf forest e.verdict, rule := e.attributedTo, backstop := e.backstop
        conflict := false }

end Build

end Policy

end Netd.Model
