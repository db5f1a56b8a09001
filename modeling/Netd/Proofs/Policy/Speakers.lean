import Mathlib.Data.List.Induction
import Mathlib.Data.Prod.Lex
import Netd.Proofs.Policy.Joins

/-! # Who speaks

The walk leaves the matched rules from the bottom up and keeps a list of those who have spoken for others.
What comes of it can be said without the walk: every chain of matching rules that nothing continues is
spoken for by the last rule in it with a verdict, and a rule speaks once, for however many chains. The
winner is the best of those who speak, and a conflict is a draw between two of them.
-/

namespace Netd.Model.Policy

variable {Condition Snapshot : Type} {language : Conditions Condition Snapshot}

/-! ## Chains of matching rules -/

section Chains

variable (language : Conditions Condition Snapshot) (snapshot : Snapshot) (roots : List (Rule Condition))

/-- A matching rule, in front of the rules above it up to a root, which match as well. -/
inductive Chain : List (WalkFrame Condition) → Prop
  | root {next : ℕ} {rule : Rule Condition} (there : roots[next]? = some rule)
      (matched : rule.matches language snapshot = true) : Chain [⟨rule, joinPath "" rule.name, [next]⟩]
  | exception {frame : WalkFrame Condition} {above : List (WalkFrame Condition)} {next : ℕ}
      {rule : Rule Condition} (upTo : Chain (frame :: above)) (there : frame.rule.children[next]? = some rule)
      (matched : rule.matches language snapshot = true) :
      Chain (⟨rule, joinPath frame.path rule.name, frame.position ++ [next]⟩ :: frame :: above)

/-- Some exception of a rule matches. -/
def Excepted (rule : Rule Condition) : Prop := ∃ child ∈ rule.children, child.matches language snapshot = true

/-- A chain that no exception continues. -/
def Ended (frame : WalkFrame Condition) (above : List (WalkFrame Condition)) : Prop :=
  Chain language snapshot roots (frame :: above) ∧ ¬ Excepted language snapshot frame.rule

/-- The rule that speaks for a chain: the nearest that has a verdict. -/
def speaker (chain : List (WalkFrame Condition)) : Option (WalkFrame Condition) :=
  chain.find? fun frame => frame.rule.hasDirectVerdict

/-- A rule that speaks for some chain. -/
def Speaks (frame : WalkFrame Condition) : Prop :=
  ∃ last above, Ended language snapshot roots last above ∧ speaker (last :: above) = some frame

mutual

/-- The chains under a rule that nothing continues, as the walk comes to their ends. -/
def endsOfRule (above : List (WalkFrame Condition)) (parentPath : String) (position : List ℕ) :
    Rule Condition → List (WalkFrame Condition × List (WalkFrame Condition))
  | ⟨name, conditions, priority, enabled, actions, children⟩ =>
    let rule : Rule Condition := ⟨name, conditions, priority, enabled, actions, children⟩
    if rule.matches language snapshot then
      let frame : WalkFrame Condition := ⟨rule, joinPath parentPath name, position⟩
      let below := endsOfRules (frame :: above) frame.path position 0 children
      if below.isEmpty then [(frame, above)] else below
    else []

def endsOfRules (above : List (WalkFrame Condition)) (parentPath : String) (position : List ℕ) (next : ℕ) :
    List (Rule Condition) → List (WalkFrame Condition × List (WalkFrame Condition))
  | [] => []
  | rule :: rest =>
    endsOfRule above parentPath (position ++ [next]) rule ++ endsOfRules above parentPath position (next + 1) rest

end

/-- The ends at or under a matched rule. -/
def endsAt (frame : WalkFrame Condition) (above : List (WalkFrame Condition)) :
    List (WalkFrame Condition × List (WalkFrame Condition)) :=
  let below := endsOfRules language snapshot (frame :: above) frame.path frame.position 0 frame.rule.children
  if below.isEmpty then [(frame, above)] else below

end Chains

section Walk

variable {snapshot : Snapshot} {above : List (WalkFrame Condition)} {parentPath : String} {position : List ℕ}

theorem endsOfRule_eq (rule : Rule Condition) :
    endsOfRule language snapshot above parentPath position rule =
      if rule.matches language snapshot then
        endsAt language snapshot ⟨rule, joinPath parentPath rule.name, position⟩ above
      else [] := by
  cases rule
  rw [endsOfRule]
  rfl

/-- What is said at the end of a chain. -/
def hear (speech : Speech) (chain : WalkFrame Condition × List (WalkFrame Condition)) : Speech :=
  trigger chain.1 chain.2 speech

mutual

/-- The walk over a rule triggers the end of every chain under it. -/
theorem walkRule_eq {above : List (WalkFrame Condition)} {parentPath : String} {position : List ℕ}
    {speech : Speech} : (rule : Rule Condition) →
    walkRule language snapshot above parentPath position speech rule =
      (!(endsOfRule language snapshot above parentPath position rule).isEmpty,
        (endsOfRule language snapshot above parentPath position rule).foldl hear speech)
  | ⟨name, conditions, priority, enabled, actions, children⟩ => by
    let rule : Rule Condition := ⟨name, conditions, priority, enabled, actions, children⟩
    rw [walkRule, endsOfRule]
    dsimp only
    rw [walkRules_eq children]
    by_cases matched : rule.matches language snapshot = true
    · rw [if_pos matched, if_pos matched]
      generalize endsOfRules language snapshot _ _ _ _ children = below
      cases below with
      | nil => rfl
      | cons first others => rfl
    · rw [if_neg matched, if_neg matched]
      rfl

theorem walkRules_eq {above : List (WalkFrame Condition)} {parentPath : String} {position : List ℕ} {next : ℕ}
    {speech : Speech} : (siblings : List (Rule Condition)) →
    walkRules language snapshot above parentPath position next speech siblings =
      (!(endsOfRules language snapshot above parentPath position next siblings).isEmpty,
        (endsOfRules language snapshot above parentPath position next siblings).foldl hear speech)
  | [] => rfl
  | rule :: rest => by
    rw [walkRules, endsOfRules, walkRule_eq rule]
    dsimp only
    rw [walkRules_eq rest, List.foldl_append]
    cases endsOfRule language snapshot above parentPath (position ++ [next]) rule with
    | nil => rfl
    | cons first others => rfl

end

end Walk

/-! ## The ends of a walk are the ends of the chains -/

section Ends

variable {snapshot : Snapshot} {roots : List (Rule Condition)}

theorem endsAt_ne_nil (frame : WalkFrame Condition) (above : List (WalkFrame Condition)) :
    endsAt language snapshot frame above ≠ [] := by
  rw [endsAt]
  split_ifs with none
  · exact List.cons_ne_nil _ _
  · rwa [List.isEmpty_iff] at none

theorem endsOfRules_subset (frame : WalkFrame Condition) (above : List (WalkFrame Condition)) :
    endsOfRules language snapshot (frame :: above) frame.path frame.position 0 frame.rule.children ⊆
      endsAt language snapshot frame above := by
  rw [endsAt]
  split_ifs with none
  · rw [List.isEmpty_iff.mp none]
    exact List.nil_subset _
  · exact List.Subset.refl _

/-- The ends under one of the rules beside each other. -/
theorem endsAt_subset {above : List (WalkFrame Condition)} {parentPath : String} {position : List ℕ} {next i : ℕ}
    {siblings : List (Rule Condition)} {rule : Rule Condition} (there : siblings[i]? = some rule)
    (matched : rule.matches language snapshot = true) :
    endsAt language snapshot ⟨rule, joinPath parentPath rule.name, position ++ [next + i]⟩ above ⊆
      endsOfRules language snapshot above parentPath position next siblings := by
  induction siblings generalizing next i with
  | nil => cases there
  | cons first rest ih =>
    rw [endsOfRules]
    cases i with
    | zero =>
      obtain rfl := Option.some.inj there
      rw [endsOfRule_eq, if_pos matched]
      exact List.subset_append_left _ _
    | succ i =>
      have shifted : next + (i + 1) = next + 1 + i := by omega
      rw [shifted]
      exact List.Subset.trans (ih there) (List.subset_append_right _ _)

/-- An end under rules beside each other is under one of them that matches. -/
theorem exists_of_mem_endsOfRules {above : List (WalkFrame Condition)} {parentPath : String} {position : List ℕ}
    {next : ℕ} {siblings : List (Rule Condition)} {chain : WalkFrame Condition × List (WalkFrame Condition)}
    (member : chain ∈ endsOfRules language snapshot above parentPath position next siblings) :
    ∃ i rule, siblings[i]? = some rule ∧ rule.matches language snapshot = true ∧
      chain ∈ endsAt language snapshot ⟨rule, joinPath parentPath rule.name, position ++ [next + i]⟩ above := by
  induction siblings generalizing next with
  | nil => cases member
  | cons first rest ih =>
    rw [endsOfRules] at member
    obtain here | later := List.mem_append.mp member
    · rw [endsOfRule_eq] at here
      split_ifs at here with matched
      · exact ⟨0, first, rfl, matched, here⟩
      · cases here
    · obtain ⟨i, rule, there, matched, inside⟩ := ih later
      have shifted : next + (i + 1) = next + 1 + i := by omega
      exact ⟨i + 1, rule, there, matched, shifted ▸ inside⟩

theorem endsOfRules_eq_nil {above : List (WalkFrame Condition)} {parentPath : String} {position : List ℕ} {next : ℕ}
    {rule : Rule Condition} :
    endsOfRules language snapshot above parentPath position next rule.children = [] ↔
      ¬ Excepted language snapshot rule := by
  constructor
  · rintro none ⟨child, member, matched⟩
    obtain ⟨i, there⟩ := List.getElem?_of_mem member
    have inside : endsAt language snapshot ⟨child, joinPath parentPath child.name, position ++ [next + i]⟩ above ⊆
        endsOfRules language snapshot above parentPath position next rule.children := endsAt_subset there matched
    rw [none] at inside
    exact endsAt_ne_nil _ _ (List.subset_nil.mp inside)
  · intro none
    refine List.eq_nil_iff_forall_not_mem.mpr fun chain member => ?_
    obtain ⟨i, child, there, matched, -⟩ := exists_of_mem_endsOfRules member
    exact none ⟨child, List.mem_of_getElem? there, matched⟩

mutual

/-- A chain that ends under a rule goes through it, and is ended if the rule was come to by a chain. -/
theorem endsOfRule_ended {above : List (WalkFrame Condition)} {parentPath : String} {position : List ℕ}
    {chain : WalkFrame Condition × List (WalkFrame Condition)} : (rule : Rule Condition) →
    chain ∈ endsOfRule language snapshot above parentPath position rule →
    let frame : WalkFrame Condition := ⟨rule, joinPath parentPath rule.name, position⟩
    frame :: above <:+ chain.1 :: chain.2 ∧
      (Chain language snapshot roots (frame :: above) → Ended language snapshot roots chain.1 chain.2)
  | ⟨name, conditions, priority, enabled, actions, children⟩, member => by
    intro frame
    rw [endsOfRule_eq] at member
    split_ifs at member with matched
    · rw [endsAt] at member
      split_ifs at member with none
      · obtain rfl := List.mem_singleton.mp member
        exact ⟨List.suffix_rfl, fun upTo => ⟨upTo, endsOfRules_eq_nil.mp (List.isEmpty_iff.mp none)⟩⟩
      · obtain ⟨i, child, there, matches_, passes, ended⟩ := endsOfRules_ended children member
        refine ⟨(List.suffix_cons _ _).trans passes, fun upTo => ended ?_⟩
        rw [Nat.zero_add]
        exact upTo.exception there matches_
    · cases member

theorem endsOfRules_ended {above : List (WalkFrame Condition)} {parentPath : String} {position : List ℕ} {next : ℕ}
    {chain : WalkFrame Condition × List (WalkFrame Condition)} : (siblings : List (Rule Condition)) →
    chain ∈ endsOfRules language snapshot above parentPath position next siblings →
    ∃ i rule, siblings[i]? = some rule ∧ rule.matches language snapshot = true ∧
      let frame : WalkFrame Condition := ⟨rule, joinPath parentPath rule.name, position ++ [next + i]⟩
      frame :: above <:+ chain.1 :: chain.2 ∧
        (Chain language snapshot roots (frame :: above) → Ended language snapshot roots chain.1 chain.2)
  | [], member => by cases member
  | rule :: rest, member => by
    rw [endsOfRules] at member
    obtain here | later := List.mem_append.mp member
    · refine ⟨0, rule, rfl, ?_, endsOfRule_ended rule here⟩
      rw [endsOfRule_eq] at here
      split_ifs at here with matched
      · exact matched
      · cases here
    · obtain ⟨i, other, there, matched, both⟩ := endsOfRules_ended rest later
      have shifted : next + (i + 1) = next + 1 + i := by omega
      exact ⟨i + 1, other, there, matched, shifted ▸ both⟩

end

/-- Wherever a chain has come to, the walk goes on from there. -/
theorem Chain.endsAt_subset {frame : WalkFrame Condition} {above : List (WalkFrame Condition)}
    (chain : Chain language snapshot roots (frame :: above)) :
    endsAt language snapshot frame above ⊆ endsOfRules language snapshot [] "" [] 0 roots := by
  generalize same : frame :: above = frames at chain
  induction chain generalizing frame above with
  | @root next rule there matched =>
    obtain ⟨rfl, rfl⟩ := List.cons.inj same
    have inside : endsAt language snapshot ⟨rule, joinPath "" rule.name, [] ++ [0 + next]⟩ [] ⊆
        endsOfRules language snapshot [] "" [] 0 roots := Policy.endsAt_subset there matched
    rwa [Nat.zero_add] at inside
  | @exception upper others next rule upTo there matched ih =>
    obtain ⟨rfl, rfl⟩ := List.cons.inj same
    refine List.Subset.trans ?_ (ih rfl)
    have inside : endsAt language snapshot ⟨rule, joinPath upper.path rule.name, upper.position ++ [0 + next]⟩
        (upper :: others) ⊆ endsOfRules language snapshot (upper :: others) upper.path upper.position 0
          upper.rule.children := Policy.endsAt_subset there matched
    rw [Nat.zero_add] at inside
    exact List.Subset.trans inside (endsOfRules_subset _ _)

theorem mem_ends_iff {chain : WalkFrame Condition × List (WalkFrame Condition)} :
    chain ∈ endsOfRules language snapshot [] "" [] 0 roots ↔ Ended language snapshot roots chain.1 chain.2 := by
  constructor
  · intro member
    obtain ⟨i, rule, there, matched, -, ended⟩ := @endsOfRules_ended _ _ _ _ roots _ _ _ _ _ roots member
    refine ended ?_
    rw [Nat.zero_add]
    exact .root there matched
  · rintro ⟨upTo, last⟩
    refine upTo.endsAt_subset ?_
    rw [endsAt, if_pos (List.isEmpty_iff.mpr (endsOfRules_eq_nil.mpr last))]
    exact List.mem_singleton_self _

/-- Rules beside each other stand in different places, so no end is come to twice. -/
theorem disjoint_ends {above : List (WalkFrame Condition)} {parentPath : String} {position : List ℕ} {next : ℕ}
    {rule : Rule Condition} {rest : List (Rule Condition)} :
    (endsOfRule language snapshot above parentPath (position ++ [next]) rule).Disjoint
      (endsOfRules language snapshot above parentPath position (next + 1) rest) := by
  intro chain here later
  obtain ⟨passes, -⟩ := @endsOfRule_ended _ _ _ _ [] _ _ _ _ rule here
  obtain ⟨i, other, -, -, also, -⟩ := @endsOfRules_ended _ _ _ _ [] _ _ _ _ _ rest later
  have same := (List.suffix_of_suffix_length_le passes also le_rfl).eq_of_length rfl
  obtain ⟨-, placed⟩ := List.append_inj' (congrArg WalkFrame.position (List.cons.inj same).1) rfl
  have : next = next + 1 + i := List.singleton_inj.mp placed
  omega

mutual

theorem endsOfRule_nodup {above : List (WalkFrame Condition)} {parentPath : String} {position : List ℕ} :
    (rule : Rule Condition) → (endsOfRule language snapshot above parentPath position rule).Nodup
  | ⟨name, conditions, priority, enabled, actions, children⟩ => by
    rw [endsOfRule_eq]
    split_ifs
    · rw [endsAt]
      split_ifs
      · exact List.nodup_singleton _
      · exact endsOfRules_nodup children
    · exact List.nodup_nil

theorem endsOfRules_nodup {above : List (WalkFrame Condition)} {parentPath : String} {position : List ℕ} {next : ℕ} :
    (siblings : List (Rule Condition)) →
    (endsOfRules language snapshot above parentPath position next siblings).Nodup
  | [] => List.nodup_nil
  | rule :: rest => by
    rw [endsOfRules]
    exact (endsOfRule_nodup rule).append (endsOfRules_nodup rest) disjoint_ends

end

/-! ## Places -/

theorem Chain.position_ne_nil {frame : WalkFrame Condition} {above : List (WalkFrame Condition)}
    (chain : Chain language snapshot roots (frame :: above)) : frame.position ≠ [] := by
  cases chain with
  | root => exact List.cons_ne_nil _ _
  | exception => exact List.append_ne_nil_of_right_ne_nil _ (List.cons_ne_nil _ _)

/-- A place is come to by one chain only. -/
theorem Chain.unique {frame other : WalkFrame Condition} {above others : List (WalkFrame Condition)}
    (chain : Chain language snapshot roots (frame :: above)) (also : Chain language snapshot roots (other :: others))
    (same : frame.position = other.position) : frame :: above = other :: others := by
  generalize frames : frame :: above = first at chain
  induction chain generalizing frame above other others with
  | @root next rule there matched =>
    obtain ⟨rfl, rfl⟩ := List.cons.inj frames
    cases also with
    | root there' =>
      obtain rfl := List.singleton_inj.mp same
      obtain rfl := Option.some.inj (there.symm.trans there')
      rfl
    | @exception upper _ last _ before =>
      have parents : [] ++ [next] = upper.position ++ [last] := same
      exact absurd (List.append_inj' parents rfl).1.symm before.position_ne_nil
  | @exception upper below next rule upTo there matched ih =>
    obtain ⟨rfl, rfl⟩ := List.cons.inj frames
    cases also with
    | @root last =>
      have parents : upper.position ++ [next] = [] ++ [last] := same
      exact absurd (List.append_inj' parents rfl).1 upTo.position_ne_nil
    | exception upTo' there' =>
      obtain ⟨parents, last⟩ := List.append_inj' same rfl
      obtain rfl := List.singleton_inj.mp last
      obtain ⟨rfl, rfl⟩ := List.cons.inj (ih upTo' parents rfl)
      obtain rfl := Option.some.inj (there.symm.trans there')
      rfl

/-- What stands in a chain is the end of a chain itself, and excepted unless it is the last. -/
theorem Chain.upTo_mem {chain : List (WalkFrame Condition)} (upTo : Chain language snapshot roots chain)
    {frame : WalkFrame Condition} (member : frame ∈ chain) :
    ∃ above, Chain language snapshot roots (frame :: above) ∧
      (frame :: above = chain ∨ Excepted language snapshot frame.rule) := by
  induction upTo with
  | root there matched =>
    obtain rfl := List.mem_singleton.mp member
    exact ⟨[], .root there matched, .inl rfl⟩
  | @exception upper above next rule upTo there matched ih =>
    obtain rfl | member := List.mem_cons.mp member
    · exact ⟨_, upTo.exception there matched, .inl rfl⟩
    · obtain ⟨others, before, whole | excepted⟩ := ih member
      · obtain ⟨rfl, rfl⟩ := List.cons.inj whole
        exact ⟨_, before, .inr ⟨rule, List.mem_of_getElem? there, matched⟩⟩
      · exact ⟨others, before, .inr excepted⟩

/-- A place in two chains is that of one rule. -/
theorem Chain.mem_unique {chain others : List (WalkFrame Condition)} (upTo : Chain language snapshot roots chain)
    (also : Chain language snapshot roots others) {frame other : WalkFrame Condition} (member : frame ∈ chain)
    (there : other ∈ others) (same : frame.position = other.position) : frame = other := by
  obtain ⟨_, first, -⟩ := upTo.upTo_mem member
  obtain ⟨_, second, -⟩ := also.upTo_mem there
  exact (List.cons.inj (first.unique second same)).1

end Ends

/-! ## What is heard -/

section Heard

variable {snapshot : Snapshot} {roots : List (Rule Condition)}

theorem resolveRule_isSome (rule : Rule Condition) : (resolveRule rule).isSome = rule.hasDirectVerdict := by
  have fold (actions : List Action) (start : Option Verdict) :
      (actions.foldl resolveAction start).isSome =
        (start.isSome || (⟨rule.name, [], 0, true, actions, []⟩ : Rule Condition).hasDirectVerdict) := by
    induction actions generalizing start with
    | nil => exact (Bool.or_false _).symm
    | cons action rest ih =>
      rw [List.foldl_cons, ih]
      cases action with
      | verdict found =>
        have one : (resolveAction start (.verdict found)).isSome = true := by
          cases start <;> rfl
        rw [one]
        exact (Bool.or_true _).symm
      | _ => rfl
  exact fold rule.actions none

/-- What a rule has to say, if it has a verdict. -/
def WalkFrame.candidate (frame : WalkFrame Condition) : Option VerdictCandidate :=
  (resolveRule frame.rule).map fun verdict => ⟨verdict, frame.rule.priority, frame.path⟩

/-- Who has spoken, after the ends that were come to. -/
structure Heard (ends : List (WalkFrame Condition × List (WalkFrame Condition)))
    (speakers : List (WalkFrame Condition)) (speech : Speech) : Prop where
  places : (speakers.map WalkFrame.position).Nodup
  members : ∀ frame, frame ∈ speakers ↔ ∃ chain ∈ ends, speaker (chain.1 :: chain.2) = some frame
  said : speakers.map WalkFrame.candidate = speech.candidates.map some
  spoken : speech.spoken ⊆ speakers.map WalkFrame.position
  others : ∀ frame ∈ speakers, frame.position ∈ speech.spoken ∨ ∃ above, (frame, above) ∈ ends

variable {ends : List (WalkFrame Condition × List (WalkFrame Condition))} {speakers : List (WalkFrame Condition)}
  {speech : Speech}

/-- A new rule speaks. -/
theorem Heard.speak (heard : Heard ends speakers speech) {last frame : WalkFrame Condition}
    {above : List (WalkFrame Condition)} {candidate : VerdictCandidate} {spoken : List (List ℕ)}
    (spokenFor : speaker (last :: above) = some frame) (new : frame.position ∉ speakers.map WalkFrame.position)
    (uttered : frame.candidate = some candidate)
    (noted : spoken = speech.spoken ∧ frame = last ∨ spoken = speech.spoken ++ [frame.position]) :
    Heard (ends ++ [(last, above)]) (speakers ++ [frame]) ⟨speech.candidates ++ [candidate], spoken⟩ := by
  have more : speech.spoken ⊆ spoken := by
    obtain ⟨rfl, -⟩ | rfl := noted
    · exact List.Subset.refl _
    · exact List.subset_append_left _ _
  constructor
  · rw [List.map_append]
    exact List.nodup_append.mpr ⟨heard.places, List.nodup_singleton _, fun place before other last same =>
      new (List.mem_singleton.mp last ▸ same ▸ before)⟩
  · intro other
    simp only [List.mem_append, heard.members, List.mem_singleton, or_and_right, exists_or, exists_eq_left,
      spokenFor, Option.some.injEq, eq_comm]
  · rw [List.map_append, List.map_append, heard.said, List.map_singleton, List.map_singleton, uttered]
  · intro place member
    rw [List.map_append]
    obtain ⟨rfl, -⟩ | rfl := noted
    · exact List.mem_append_left _ (heard.spoken member)
    · obtain before | last := List.mem_append.mp member
      · exact List.mem_append_left _ (heard.spoken before)
      · exact List.mem_append_right _ last
  · intro other member
    obtain before | last := List.mem_append.mp member
    · refine (heard.others other before).imp (fun there => more there) ?_
      rintro ⟨others, ended⟩
      exact ⟨others, List.mem_append_left _ ended⟩
    · obtain rfl := List.mem_singleton.mp last
      obtain ⟨-, rfl⟩ | rfl := noted
      · exact .inr ⟨above, List.mem_append_right _ (List.mem_singleton_self _)⟩
      · exact .inl (List.mem_append_right _ (List.mem_singleton_self _))

/-- No new rule speaks. -/
theorem Heard.silent (heard : Heard ends speakers speech) {last : WalkFrame Condition}
    {above : List (WalkFrame Condition)} (known : ∀ frame, speaker (last :: above) = some frame → frame ∈ speakers) :
    Heard (ends ++ [(last, above)]) speakers speech where
  places := heard.places
  members frame := by
    rw [heard.members]
    constructor
    · rintro ⟨chain, member, spokenFor⟩
      exact ⟨chain, List.mem_append_left _ member, spokenFor⟩
    · rintro ⟨chain, member, spokenFor⟩
      obtain before | here := List.mem_append.mp member
      · exact ⟨chain, before, spokenFor⟩
      · obtain rfl := List.mem_singleton.mp here
        exact (heard.members frame).mp (known frame spokenFor)
  said := heard.said
  spoken := heard.spoken
  others frame member := (heard.others frame member).imp_right fun ⟨others, ended⟩ =>
    ⟨others, List.mem_append_left _ ended⟩

theorem Heard.hear (heard : Heard ends speakers speech) {last : WalkFrame Condition}
    {above : List (WalkFrame Condition)} (ended : Ended language snapshot roots last above)
    (before : ∀ chain ∈ ends, Ended language snapshot roots chain.1 chain.2) (new : (last, above) ∉ ends) :
    ∃ speakers, Heard (ends ++ [(last, above)]) speakers (hear speech (last, above)) := by
  obtain ⟨upTo, unexcepted⟩ := ended
  -- Whoever has spoken stands in a chain, so it is known by its place.
  have known {frame other : WalkFrame Condition} (member : frame ∈ last :: above) (there : other ∈ speakers)
      (same : other.position = frame.position) : other = frame := by
    obtain ⟨chain, there, spokenFor⟩ := (heard.members other).mp there
    exact (before chain there).1.mem_unique upTo (List.mem_of_find?_eq_some spokenFor) member same
  rw [Policy.hear, trigger]
  cases own : resolveRule last.rule with
  | some verdict =>
    have direct : last.rule.hasDirectVerdict = true := by rw [← resolveRule_isSome, own]; rfl
    have spokenFor : speaker (last :: above) = some last := List.find?_cons_of_pos direct
    refine ⟨_, heard.speak spokenFor ?_ (by rw [WalkFrame.candidate, own]; rfl) (.inl ⟨rfl, rfl⟩)⟩
    intro place
    obtain ⟨other, there, same⟩ := List.mem_map.mp place
    obtain rfl := known List.mem_cons_self there same
    obtain ⟨chain, earlier, spokenFor⟩ := (heard.members other).mp there
    obtain ⟨others, here, whole | excepted⟩ := (before chain earlier).1.upTo_mem (List.mem_of_find?_eq_some spokenFor)
    · obtain ⟨first, rest⟩ := List.cons.inj ((here.unique upTo rfl).symm.trans whole)
      exact new (first ▸ rest ▸ earlier)
    · exact unexcepted excepted
  | none =>
    have without : ¬ last.rule.hasDirectVerdict = true := by rw [← resolveRule_isSome, own]; exact Bool.false_ne_true
    have passed : speaker (last :: above) = speaker above := List.find?_cons_of_neg without
    cases found : above.find? fun frame => frame.rule.hasDirectVerdict with
    | none =>
      refine ⟨speakers, heard.silent fun frame spokenFor => ?_⟩
      rw [passed, speaker, found] at spokenFor
      cases spokenFor
    | some frame =>
      have spokenFor : speaker (last :: above) = some frame := passed.trans found
      have member : frame ∈ last :: above := List.mem_cons_of_mem _ (List.mem_of_find?_eq_some found)
      dsimp only
      split_ifs with spoken
      · refine ⟨speakers, heard.silent fun other spokenFor' => ?_⟩
        obtain rfl := Option.some.inj (spokenFor.symm.trans spokenFor')
        obtain ⟨other, there, same⟩ := List.mem_map.mp (heard.spoken spoken)
        exact known member there same ▸ there
      · have direct : frame.rule.hasDirectVerdict = true :=
          List.find?_some (p := fun frame : WalkFrame Condition => frame.rule.hasDirectVerdict) found
        obtain ⟨verdict, speaks⟩ := Option.isSome_iff_exists.mp ((resolveRule_isSome frame.rule).trans direct)
        rw [speaks]
        refine ⟨_, heard.speak spokenFor ?_ (by rw [WalkFrame.candidate, speaks]; rfl) (.inr rfl)⟩
        intro place
        obtain ⟨other, there, same⟩ := List.mem_map.mp place
        obtain rfl := known member there same
        obtain noted | ⟨others, earlier⟩ := heard.others other there
        · exact spoken noted
        · obtain ⟨_, _, whole | excepted⟩ := upTo.upTo_mem member
          · obtain ⟨rfl, -⟩ := List.cons.inj whole
            exact without direct
          · exact (before _ earlier).2 excepted

/-- Everyone who speaks for an end that was come to is heard once. -/
theorem heard_foldl (each : ∀ chain ∈ ends, Ended language snapshot roots chain.1 chain.2) (once : ends.Nodup) :
    ∃ speakers, Heard ends speakers (ends.foldl hear {}) := by
  induction ends using List.reverseRecOn with
  | nil => exact ⟨[], List.nodup_nil, by simp, rfl, List.Subset.refl _, List.forall_mem_nil _⟩
  | append_singleton before chain ih =>
    obtain ⟨first, -, apart⟩ := List.nodup_append.mp once
    obtain ⟨speakers, heard⟩ := ih (fun chain member => each chain (List.mem_append_left _ member)) first
    rw [List.foldl_append]
    exact heard.hear (each chain (List.mem_append_right _ (List.mem_singleton_self _)))
      (fun chain member => each chain (List.mem_append_left _ member))
      fun member => apart _ member _ (List.mem_singleton_self _) rfl

end Heard

/-! ## The judgment -/

/-- The candidates of a forest are those who speak, each of them once. -/
theorem candidates_speak (language : Conditions Condition Snapshot) (forest : Forest Condition)
    (snapshot : Snapshot) :
    ∃ speakers : List (WalkFrame Condition), (speakers.map WalkFrame.position).Nodup ∧
      (∀ frame, frame ∈ speakers ↔ Speaks language snapshot forest.roots frame) ∧
      speakers.map WalkFrame.candidate = (evaluate language forest snapshot).candidates.map some := by
  obtain ⟨speakers, heard⟩ := heard_foldl
    (fun (chain : WalkFrame Condition × List (WalkFrame Condition))
      (member : chain ∈ endsOfRules language snapshot [] "" [] 0 forest.roots) => mem_ends_iff.mp member)
    (endsOfRules_nodup forest.roots)
  refine ⟨speakers, heard.places, fun frame => ?_, ?_⟩
  · rw [heard.members]
    constructor
    · rintro ⟨chain, member, spokenFor⟩
      exact ⟨chain.1, chain.2, mem_ends_iff.mp member, spokenFor⟩
    · rintro ⟨last, above, ended, spokenFor⟩
      exact ⟨(last, above), mem_ends_iff.mpr ended, spokenFor⟩
  · have all : (evaluate language forest snapshot).candidates =
        (walkRules language snapshot [] "" [] 0 {} forest.roots).2.candidates := by
      rw [evaluate]
      split <;> rfl
    rw [heard.said, all, walkRules_eq]

/-- A verdict that is said for some chain. -/
def Told (language : Conditions Condition Snapshot) (snapshot : Snapshot) (roots : List (Rule Condition))
    (candidate : VerdictCandidate) : Prop :=
  ∃ frame, Speaks language snapshot roots frame ∧ frame.candidate = some candidate

theorem mem_candidates_iff {forest : Forest Condition} {snapshot : Snapshot} {candidate : VerdictCandidate} :
    candidate ∈ (evaluate language forest snapshot).candidates ↔
      Told language snapshot forest.roots candidate := by
  obtain ⟨speakers, -, members, said⟩ := candidates_speak language forest snapshot
  have mapped : some candidate ∈ (evaluate language forest snapshot).candidates.map some ↔
      candidate ∈ (evaluate language forest snapshot).candidates :=
    List.mem_map_of_injective (Option.some_injective _)
  rw [← mapped, ← said, List.mem_map]
  simp only [members, Told]

/-- By priority, then by strictness. -/
def VerdictCandidate.rank (candidate : VerdictCandidate) : ℤ ×ₗ ℕ :=
  toLex (candidate.priority, candidate.verdict.strictness)

theorem tied_iff {top candidate : VerdictCandidate} :
    tied top candidate = true ↔ candidate.rank = top.rank ∧ candidate.verdict ≠ top.verdict := by
  rw [tied, decide_eq_true_iff, ← and_assoc, VerdictCandidate.rank, VerdictCandidate.rank, toLex_inj, Prod.mk.injEq]

/-- Who leads so far is not passed by anyone who was asked. -/
def Leads (asked : VerdictCandidate → Prop) (leader : Option VerdictCandidate) : Prop :=
  ∀ c, asked c → ∃ top ∈ leader, c.rank ≤ top.rank

theorem rank_lt_iff {current candidate : VerdictCandidate} :
    (current.priority < candidate.priority ∨
      candidate.priority = current.priority ∧ current.verdict.strictness < candidate.verdict.strictness) ↔
      current.rank < candidate.rank := by
  rw [VerdictCandidate.rank, VerdictCandidate.rank, Prod.Lex.toLex_lt_toLex, eq_comm]

theorem winner_leads (candidates : List VerdictCandidate) : Leads (· ∈ candidates) (winner candidates) := by
  induction candidates using List.reverseRecOn with
  | nil => exact fun c member => by cases member
  | append_singleton before candidate ih =>
    intro c member
    rw [winner, List.foldl_append, ← winner, List.foldl_cons, List.foldl_nil]
    cases led : winner before with
    | none =>
      obtain earlier | last := List.mem_append.mp member
      · obtain ⟨top, there, -⟩ := ih c earlier
        rw [led] at there
        cases there
      · obtain rfl := List.mem_singleton.mp last
        exact ⟨c, rfl, le_rfl⟩
    | some current =>
      have ahead : ∀ c ∈ before, c.rank ≤ current.rank := by
        intro c earlier
        obtain ⟨top, there, below⟩ := ih c earlier
        rw [led] at there
        obtain rfl := Option.some.inj there
        exact below
      dsimp only
      rw [if_congr rank_lt_iff rfl rfl]
      split_ifs with passed
      · refine ⟨candidate, rfl, ?_⟩
        obtain earlier | last := List.mem_append.mp member
        · exact (ahead c earlier).trans passed.le
        · exact (List.mem_singleton.mp last ▸ le_rfl)
      · refine ⟨current, rfl, ?_⟩
        obtain earlier | last := List.mem_append.mp member
        · exact ahead c earlier
        · exact List.mem_singleton.mp last ▸ not_lt.mp passed

theorem winner_none {candidates : List VerdictCandidate} (none : winner candidates = none) : candidates = [] := by
  refine List.eq_nil_iff_forall_not_mem.mpr fun c member => ?_
  obtain ⟨top, led, -⟩ := winner_leads candidates c member
  rw [none] at led
  cases led

/-- Nobody ranks above the winner. -/
theorem rank_le_of_winner {candidates : List VerdictCandidate} {top : VerdictCandidate}
    (won : winner candidates = some top) : ∀ c ∈ candidates, c.rank ≤ top.rank := by
  intro c member
  obtain ⟨other, led, below⟩ := winner_leads candidates c member
  obtain rfl := Option.some.inj (won.symm.trans led)
  exact below

/-- What is judged is the winner's, or the backstop's. -/
theorem evaluate_cases (language : Conditions Condition Snapshot) (forest : Forest Condition) (snapshot : Snapshot) :
    let e := evaluate language forest snapshot
    (winner e.candidates = none ∧ e.backstop = true ∧ e.verdict = .ignore ∧ e.conflict = false) ∨
      ∃ top, winner e.candidates = some top ∧ e.backstop = false ∧ e.verdict = top.verdict ∧
        e.attributedTo = top.rule ∧ e.conflict = e.candidates.any (tied top) := by
  dsimp only
  rw [evaluate]
  cases won : winner (walkRules language snapshot [] "" [] 0 {} forest.roots).2.candidates with
  | none => exact .inl ⟨won, rfl, rfl, rfl⟩
  | some top => exact .inr ⟨top, won, rfl, rfl, rfl, rfl⟩

end Netd.Model.Policy
