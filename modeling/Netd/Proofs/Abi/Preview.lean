import Netd.Model.Abi.Preview
import Netd.Proofs.Abi.Trees
import Netd.Proofs.Abi.Views
import Netd.Proofs.Text.Addresses

/-! # A preview is what netd would do

What a client builds and judges through the library is what `netd-core` makes of the same trees and facts:
the trees are read out of their layouts, the policy is built from them, and what is laid out of the result
reads back whole, for every address reads back from its text.
-/

namespace Netd.Model.Abi

/-! ## Profiles -/

/-- Whatever addresses a profile has, they read back as they are written. -/
theorem printable (value : Model.Profile) : Printable value where
  gateway address _ := parseIpv4Addr_display address
  gateway6 address _ := parseIpv6Addr_display address
  statics entry _ := parseIpAddr_display entry.address
  servers address _ := parseIpAddr_display address

/-- The profiles of a policy, in the order of their folded paths. -/
def listed (profiles : Profiles) : List Model.Profile := profiles.entries.map Prod.snd

/-! ## Facts -/

/-- How much text the facts have. -/
def factsExtent (value : Model.Facts) : ℕ :=
  textExtent value.interface + textExtent value.interfaceKind + textExtent value.interfaceId +
    textExtent value.interfacePath + textExtent value.interfaceDriver + textExtent value.networkId +
    textExtent value.networkName + textExtent value.networkTrust + textExtent value.networkKind

theorem mac_crosses (mac : Option Mac) :
    Budget.mac (mac.elim ⟨none, 0⟩ fun mac => span (toBeBytes 6 mac)) = .ok mac := by
  cases mac with
  | none => rfl
  | some mac =>
    have length : (toBeBytes 6 mac).length = 6 := length_toBeBytes 6 mac
    have six : (len (toBeBytes 6 mac)).toNat = 6 := by
      rw [len, length]
      rfl
    have octets : bytes (span (toBeBytes 6 mac)) = .ok (toBeBytes 6 mac) := by
      have small : ¬(span (toBeBytes 6 mac)).len.toNat > maxTextBytes := by
        change ¬(len (toBeBytes 6 mac)).toNat > maxTextBytes
        rw [six]
        decide
      rw [bytes, if_neg small]
      exact array_of_reads (reads_some (by omega)) (by rw [length]; decide)
    rw [Option.elim_some, Budget.mac, if_neg (by simp [span]), octets]
    change (if (toBeBytes 6 mac).length = 6 then .ok (some (fromBeBytes (toBeBytes 6 mac)))
      else .error (invalid "MAC must contain six bytes") : Except Fault (Option Mac)) = _
    rw [if_pos length, fromBeBytes_toBeBytes mac rfl]

theorem optional_affords (text : Option String) (small : textExtent text < 2 ^ 64) :
    (Budget.optional (Input.optional text)).Affords Budget.limit (0, textExtent text) (· = text) := by
  cases text with
  | none => exact .pure rfl
  | some text =>
    refine (Budget.text_affords (span_holds small)).bind (fun found same => .pure ?_) (add_zero _).symm
    rw [same]

/-- The library takes any facts whose texts are within its limit, and reads them as they are. -/
theorem facts_cross {value : Model.Facts} (short : factsExtent value ≤ maxTextBytes) :
    decodeFacts (some (Input.facts value)) = .ok value := by
  have small : factsExtent value < 2 ^ 64 := short.trans_lt (by decide)
  rw [factsExtent] at small
  have take (text : Option String) (within : textExtent text < 2 ^ 64) := optional_affords text within
  have all : (Budget.facts (Input.facts value)).Affords Budget.limit (0, factsExtent value) (· = value) := by
    have sum : ((0, factsExtent value) : Budget) = 0 + ((0, textExtent value.interface) +
        ((0, textExtent value.interfaceKind) + ((0, textExtent value.interfaceId) +
          ((0, textExtent value.interfacePath) + ((0, textExtent value.interfaceDriver) +
            ((0, textExtent value.networkId) + ((0, textExtent value.networkName) +
              ((0, textExtent value.networkTrust) + ((0, textExtent value.networkKind) + 0))))))))) := by
      simp [factsExtent, Nat.add_assoc]
    rw [sum]
    have first : (Metered.lift (Budget.mac (Input.facts value).interfaceMac)).Affords Budget.limit 0
        (· = value.interfaceMac) := .lift (mac_crosses value.interfaceMac) rfl
    refine first.bind (fun _ mac => ?_) rfl
    refine .bind (take value.interface (by omega)) (fun _ interface => ?_) rfl
    refine .bind (take value.interfaceKind (by omega)) (fun _ interfaceKind => ?_) rfl
    refine .bind (take value.interfaceId (by omega)) (fun _ interfaceId => ?_) rfl
    refine .bind (take value.interfacePath (by omega)) (fun _ interfacePath => ?_) rfl
    refine .bind (take value.interfaceDriver (by omega)) (fun _ interfaceDriver => ?_) rfl
    refine .bind (take value.networkId (by omega)) (fun _ networkId => ?_) rfl
    refine .bind (take value.networkName (by omega)) (fun _ networkName => ?_) rfl
    refine .bind (take value.networkTrust (by omega)) (fun _ networkTrust => ?_) rfl
    refine .bind (take value.networkKind (by omega)) (fun _ networkKind => .pure ?_) rfl
    rw [mac, interface, interfaceKind, interfaceId, interfacePath, interfaceDriver, networkId, networkName, networkTrust,
      networkKind]
  obtain ⟨out, run, rfl⟩ := all (0, 0) ⟨Nat.zero_le _, by rw [Prod.snd_add, Nat.zero_add]; exact short⟩
  exact Metered.run'_eq_ok.mpr ⟨_, run⟩

/-! ## Judgments -/

/-- A profile that an interface joins is one of the policy's. -/
theorem judge_profile {Condition : Type} (language : Policy.Conditions Condition Model.Facts) (policy : Policy Condition)
    (facts : Model.Facts) {joined : Model.Profile} (outcome : (policy.judge language facts).outcome = .join joined) :
    joined ∈ listed policy.profiles := by
  rw [Policy.judge] at outcome
  cases held : policy.forest with
  | none =>
    rw [held] at outcome
    cases outcome
  | some forest =>
    rw [held] at outcome
    dsimp only at outcome
    split_ifs at outcome
    dsimp only at outcome
    cases verdict : (Policy.evaluate language forest facts).verdict with
    | join index =>
      rw [verdict, Policy.outcomeOf] at outcome
      cases found : forest.profiles[index]?.bind fun path => policy.profiles.lookup (toAsciiLowercase path) with
      | none =>
        rw [found] at outcome
        cases outcome
      | some profile =>
        rw [found] at outcome
        obtain rfl := Outcome.join.inj outcome
        obtain ⟨path, -, stored⟩ := Option.bind_eq_some_iff.mp found
        exact List.mem_map.mpr ⟨_, (policy.profiles.lookup_eq_some_iff _ _).mp stored, rfl⟩
    | _ =>
      rw [verdict] at outcome
      cases outcome

/-- A judgment whose rule and profile fit in memory reads back as it was. -/
theorem judgment_crosses {value : Policy.Judgment} (rule : value.rule.utf8ByteSize < 2 ^ 64)
    (joined : ∀ profile, value.outcome = .join profile → profileExtent profile < 2 ^ 64) :
    Decode.judgment (some (Arena.judgment value)) = .ok value := by
  have text : Decode.text (Arena.text value.rule) = .ok value.rule := decode_text rule
  have outcome : Decode.outcome (Arena.outcome value.outcome) (value.outcome.profile.map Arena.profile) =
      .ok value.outcome := by
    cases kind : value.outcome with
    | ignore => rfl
    | down => rfl
    | join profile =>
      change (Decode.profile (some (Arena.profile profile))).map Outcome.join = _
      rw [decode_profile (joined profile kind) (printable profile)]
      rfl
  rw [Decode.judgment, Arena.judgment]
  dsimp only
  rw [outcome, text]
  simp only [Fallible.ok_bind]
  rw [decode_flag, decode_flag]
  rfl

/-! ## Policies -/

section Preview

variable {Condition : Type} (language : Policy.Conditions Condition Model.Facts) (debug : String → String)

/-- What a client has of a policy. -/
def handleOf (policy : Policy Condition) : Handle Condition where
  policy
  profiles := policy.profiles.entries.map fun entry => Arena.profile entry.2
  lints := Arena.strings policy.lints

/-- What a client can see of a handle is what the policy is, as far as that fits in memory. -/
structure Mirrors (handle : Handle Condition) (policy : Policy Condition) : Prop where
  profiles : (∀ profile ∈ listed policy.profiles, profileExtent profile < 2 ^ 64) →
    Preview.profiles handle = .ok (listed policy.profiles)
  lints : textsExtent policy.lints < 2 ^ 64 → Preview.lints handle = .ok policy.lints
  judge : (∀ profile ∈ listed policy.profiles, profileExtent profile < 2 ^ 64) → ∀ facts : Model.Facts,
    factsExtent facts ≤ maxTextBytes → (policy.judge language facts).rule.utf8ByteSize < 2 ^ 64 →
      Preview.judge language handle facts = .ok (policy.judge language facts)

theorem handleOf_mirrors (policy : Policy Condition) : Mirrors language (handleOf policy) policy where
  profiles small := by
    have views : (handleOf policy).profiles = (listed policy.profiles).map Arena.profile := by
      rw [handleOf, listed, List.map_map]
      rfl
    have each : (List.range (handleOf policy).profiles.length).map (fun index => (handleOf policy).profiles[index]?) =
        (listed policy.profiles).map fun profile => some (Arena.profile profile) := by
      rw [views]
      apply List.ext_getElem
      · simp
      · intro index inside within
        simp only [List.length_map, List.length_range] at inside
        simp [inside]
    have read : ((listed policy.profiles).map fun profile => some (Arena.profile profile)).mapM Decode.profile =
        .ok (listed policy.profiles) :=
      Fallible.mapM_map fun profile member => decode_profile (small profile member) (printable profile)
    rw [← each, List.mapM_map] at read
    exact read
  lints small := decode_strings small
  judge small facts short rule := by
    have snapshot : policyJudge language (handleOf policy) (some (Input.facts facts)) =
        .ok (Arena.judgment (policy.judge language facts)) := by
      rw [policyJudge, facts_cross short]
      rfl
    rw [Preview.judge, snapshot]
    exact judgment_crosses rule fun profile outcome => small profile (judge_profile language policy facts outcome)

/-- Within the limits the library builds what `netd-core` builds of the same trees, or gives its error. -/
theorem preview_build {rules profiles : Option RawKey} (within : Within rules profiles)
    (short : textOf rules profiles ≤ maxTextBytes) :
    Preview.build language debug rules profiles =
      match Policy.build language rules profiles with
      | .ok policy => .ok (handleOf policy)
      | .error e => .error (invalid (e.text debug)) := by
  obtain ⟨views, encoded⟩ := encode_of_within within
  obtain ⟨first, second⟩ := (encode_within encoded).2 (short.trans_lt (by decide))
  have decoded := decode_of_within first second within short
  rw [Preview.build, encoded]
  change policyBuild language debug views.1 views.2 = _
  rw [policyBuild, decoded]
  rfl

/-- Whatever the library builds is what `netd-core` builds of the same trees. -/
theorem preview_sound {rules profiles : Option RawKey} (memory : textOf rules profiles < 2 ^ 64)
    {handle : Handle Condition} (built : Preview.build language debug rules profiles = .ok handle) :
    ∃ policy, Policy.build language rules profiles = .ok policy ∧ handle = handleOf policy := by
  obtain ⟨views, encoded, called⟩ := Fallible.bind_eq_ok.mp built
  obtain ⟨⟨first, second⟩, decoded, answered⟩ := Fallible.bind_eq_ok.mp called
  obtain ⟨represents, represents'⟩ := (encode_within encoded).2 memory
  obtain ⟨rfl, rfl⟩ := Prod.mk.inj ((decode_within decoded).2 rules profiles represents represents')
  change (match Policy.build language first second with
    | .ok policy => .ok (handleOf policy)
    | .error e => .error (invalid (e.text debug)) : Except Fault (Handle Condition)) = .ok handle at answered
  cases made : Policy.build language first second with
  | error e =>
    rw [made] at answered
    cases answered
  | ok policy =>
    rw [made] at answered
    exact ⟨policy, rfl, (Except.ok.inj answered).symm⟩

/-- A preview is what netd would do: whatever the library builds is, as far as a client can see and fits in memory, the
policy that netd builds of the same trees, with its profiles, its lints and its judgment of any facts within the limit;
and within the limits the library builds whenever netd would, and refuses what netd would refuse with the same text. -/
theorem preview_agrees (rules profiles : Option RawKey) (memory : textOf rules profiles < 2 ^ 64) :
    (∀ handle, Preview.build language debug rules profiles = .ok handle →
        ∃ policy, Policy.build language rules profiles = .ok policy ∧ Mirrors language handle policy) ∧
      (Within rules profiles → textOf rules profiles ≤ maxTextBytes →
        ((∃ handle, Preview.build language debug rules profiles = .ok handle) ↔
          ∃ policy, Policy.build language rules profiles = .ok policy) ∧
        ∀ e, Policy.build language rules profiles = .error e →
          Preview.build language debug rules profiles = .error (invalid (e.text debug))) := by
  refine ⟨fun handle built => ?_, fun within short => ⟨?_, fun e refused => ?_⟩⟩
  · obtain ⟨policy, made, rfl⟩ := preview_sound language debug memory built
    exact ⟨policy, made, handleOf_mirrors language policy⟩
  · constructor
    · rintro ⟨handle, built⟩
      obtain ⟨policy, made, -⟩ := preview_sound language debug memory built
      exact ⟨policy, made⟩
    · rintro ⟨policy, made⟩
      exact ⟨handleOf policy, by rw [preview_build language debug within short, made]⟩
  · rw [preview_build language debug within short, refused]

end Preview

/-- One rule that joins one profile, under conditions that always hold. -/
def joinsOffice : RawKey := ⟨"Interface", [], [⟨"Wired", [("Actions", .list ["JOIN(Office)"])], []⟩]⟩

def officeProfile : RawKey :=
  ⟨"Profiles", [], [⟨"Office", [("Dns.Servers", .list ["2001:db8::1", "::ffff:10.0.0.1"])], []⟩]⟩

def everywhere : Policy.Conditions Unit Model.Facts := ⟨fun _ _ _ => .ok ((), false), fun _ => false, fun _ _ => true⟩

theorem office_previews : ∃ handle policy,
    Preview.build everywhere id (some joinsOffice) (some officeProfile) = .ok handle ∧
      Policy.build everywhere (some joinsOffice) (some officeProfile) = .ok policy ∧
      Mirrors everywhere handle policy := by
  have within : Within (some joinsOffice) (some officeProfile) := by
    refine ⟨by decide, ?_, ?_⟩
    · rintro key ⟨⟩
      decide
    · rintro key ⟨⟩
      decide
  obtain ⟨mirrors, builds⟩ := preview_agrees everywhere id (some joinsOffice) (some officeProfile) (by decide +kernel)
  have fine : (Policy.build everywhere (some joinsOffice) (some officeProfile)).toOption.isSome = true := by decide +kernel
  obtain ⟨built, -⟩ := builds within (by decide +kernel)
  cases made : Policy.build everywhere (some joinsOffice) (some officeProfile) with
  | error e =>
    rw [made] at fine
    cases fine
  | ok policy =>
    obtain ⟨handle, previewed⟩ := built.mpr ⟨policy, made⟩
    obtain ⟨other, same, mirror⟩ := mirrors handle previewed
    obtain rfl := Except.ok.inj (made.symm.trans same)
    exact ⟨handle, policy, previewed, rfl, mirror⟩

end Netd.Model.Abi
