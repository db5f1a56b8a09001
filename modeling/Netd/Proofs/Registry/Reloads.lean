import Netd.Proofs.Registry.Reads

/-! # A reload of what has not changed

Two readers of the same contents may list values and subkeys in different orders. What they read is the
same, down to the error of a read that fails, so a configuration compares equal with one that was read
before and nothing is built of it.
-/

namespace Netd.Model.Registry

/-- Keys of two readers that are related have the same values and the same subkeys, listed in whatever order,
and fail alike. -/
structure SameContents {κ κ' : Type} (reader : Reader κ) (other : Reader κ') (related : κ → κ' → Prop) : Prop where
  value : ∀ {key key'}, related key key' → ∀ name, reader.value key name = other.value key' name
  values : ∀ {key key'}, related key key' → Fallible.Alike List.Perm (reader.values key) (other.values key')
  names : ∀ {key key'}, related key key' → Fallible.Alike List.Perm (reader.names key) (other.names key')
  child : ∀ {key key'}, related key key' → ∀ name,
    Fallible.Alike (Option.Rel related) (reader.child key name) (other.child key' name)

section Same

variable {κ κ' : Type} {reader : Reader κ} {other : Reader κ'} {related : κ → κ' → Prop}

theorem readValues_eq (distinct : reader.Distinct) {key : κ} {key' : κ'}
    (alike : Fallible.Alike List.Perm (reader.values key) (other.values key')) :
    readValues reader key = readValues other key' := by
  have distinct := distinct.values key
  rw [readValues, readValues]
  generalize reader.values key = answer at alike distinct
  generalize other.values key' = answer' at alike
  cases alike with
  | error error => rfl
  | @ok records records' perm =>
    rw [Fallible.ok_bind, Fallible.ok_bind]
    obtain ⟨first, second⟩ | ⟨lowered, lowered', first, second, perm⟩ :=
      Fallible.mapM_perm (fun _ _ => lowerRecord_error) perm
    · rw [first, second]
    · have nodup := lowered_nodup first (distinct records rfl)
      have kept : lowered.reduceOption.Perm lowered'.reduceOption := perm.filterMap id
      rw [first, second, Fallible.ok_bind, Fallible.ok_bind, Sorting.sortOn_eq_of_perm nodup kept]

theorem readNames_eq (distinct : reader.Distinct) {key : κ} {key' : κ'}
    (alike : Fallible.Alike List.Perm (reader.names key) (other.names key')) :
    readNames reader key = readNames other key' := by
  have distinct := distinct.names key
  rw [readNames, readNames]
  generalize reader.names key = answer at alike distinct
  generalize other.names key' = answer' at alike
  cases alike with
  | error error => rfl
  | @ok raw raw' perm =>
    rw [Fallible.ok_bind, Fallible.ok_bind]
    obtain ⟨first, second⟩ | ⟨spelled, spelled', first, second, perm⟩ :=
      Fallible.mapM_perm (fun _ _ => text_error) perm
    · rw [first, second]
    · have nodup := spelled_nodup first (distinct raw rfl)
      rw [first, second, Fallible.ok_bind, Fallible.ok_bind, Sorting.sortOn_eq_of_perm nodup perm]

/-- A subkey is opened by both or by neither. -/
theorem openChild_alike (same : SameContents reader other related) {key : κ} {key' : κ'} (both : related key key')
    (name : String) : Fallible.Alike related (openChild reader key name) (openChild other key' name) := by
  have alike := same.child both name
  rw [openChild, openChild]
  generalize reader.child key name = answer at alike
  generalize other.child key' name = answer' at alike
  cases alike with
  | error error => exact .error error
  | ok found =>
    cases found with
    | none => exact .error _
    | some found => exact .ok found

theorem readLevels_eq (distinct : reader.Distinct) (same : SameContents reader other related) (levels : ℕ) {key : κ}
    {key' : κ'} (both : related key key') (name : String) :
    readLevels reader levels key name = readLevels other levels key' name := by
  have values := readValues_eq distinct (same.values both)
  have names := readNames_eq distinct (same.names both)
  induction levels generalizing key key' name with
  | zero => rw [readLevels, readLevels, values, names]
  | succ levels ih =>
    have each : (fun sub => (openChild reader key sub).bind fun child => readLevels reader levels child sub) =
        fun sub => (openChild other key' sub).bind fun child => readLevels other levels child sub := by
      funext sub
      apply (openChild_alike same both sub).bind_eq
      intro child child' found
      exact ih found sub (readValues_eq distinct (same.values found)) (readNames_eq distinct (same.names found))
    rw [readLevels, readLevels, values, names]
    change (_ >>= fun _ => _ >>= fun names => List.mapM (fun sub => (openChild reader key sub).bind _) names >>= _) = _
    rw [each]
    rfl

theorem readTree_eq (distinct : reader.Distinct) (same : SameContents reader other related) {key : κ} {key' : κ'}
    (both : related key key') (name : String) (depth : ℕ) :
    readTree reader key name depth = readTree other key' name depth :=
  readLevels_eq distinct same _ both name

/-! ## The whole configuration -/

theorem readSz_eq (same : SameContents reader other related) {key : κ} {key' : κ'} (both : related key key')
    (name : String) : readSz reader key name = readSz other key' name := by
  rw [readSz, readSz, same.value both]

/-- A tree that may not be there. -/
theorem optional_tree_eq (distinct : reader.Distinct) (same : SameContents reader other related) {found : Option κ}
    {found' : Option κ'} (both : Option.Rel related found found') (name : String) :
    (found.mapM fun key => readTree reader key name 0) = found'.mapM fun key => readTree other key name 0 := by
  cases both with
  | none => rfl
  | some both =>
    have tree := readTree_eq distinct same both name 0
    simp only [Option.mapM_some, tree]

theorem readRules_eq (distinct : reader.Distinct) (same : SameContents reader other related) {root : κ} {root' : κ'}
    (both : related root root') : readRules reader root = readRules other root' := by
  rw [readRules, readRules]
  apply (same.child both "Rules").bind_eq
  intro rules rules' found
  cases found with
  | none => rfl
  | some found =>
    apply (same.child found "Interface").bind_eq
    exact fun layer layer' found => optional_tree_eq distinct same found "Interface"

theorem readProfiles_eq (distinct : reader.Distinct) (same : SameContents reader other related) {root : κ} {root' : κ'}
    (both : related root root') {α : Type} (more : Option RawKey → Except IoError α) :
    ((reader.child root "Profiles").bind fun found =>
        (found.mapM fun profiles => readTree reader profiles "Profiles" 0).bind more) =
      (other.child root' "Profiles").bind fun found =>
        (found.mapM fun profiles => readTree other profiles "Profiles" 0).bind more := by
  apply (same.child both "Profiles").bind_eq
  intro profiles profiles' found
  rw [optional_tree_eq distinct same found "Profiles"]

theorem loadRoot_eq (distinct : reader.Distinct) (same : SameContents reader other related) {root : Option κ}
    {root' : Option κ'} (both : Option.Rel related root root') : loadRoot reader root = loadRoot other root' := by
  cases both with
  | none => rfl
  | @some root root' both =>
    have security : readControlSecurity reader root = readControlSecurity other root' := by
      rw [readControlSecurity, readControlSecurity, same.value both]
    have duid : readDuid reader root = readDuid other root' := by rw [readDuid, readDuid, readSz_eq same both]
    rw [loadRoot, loadRoot, readSz_eq same both, security, duid, readRules_eq distinct same both]
    apply bind_congr
    intro hostname
    apply bind_congr
    intro controlSecurity
    apply bind_congr
    intro duid
    apply bind_congr
    intro rules
    exact readProfiles_eq distinct same both _

end Same

/-- A configuration that compares equal is not taken again. -/
theorem reload_unchanged {Condition : Type} (language : Policy.Conditions Condition Facts) (d : Daemon Condition)
    (interfaces : List Subject) : d.reload language ⟨.events, some d.config, interfaces⟩ = (d, none, true) := by
  have adopted : d.adopt language d.config interfaces = (d, none) := if_pos rfl
  rw [Daemon.reload]
  dsimp only
  rw [adopted]

/-- A tree is read whole or not at all, the same in whatever order it is enumerated, and a reload of what has
not changed takes no new generation. -/
theorem reads_canonical {Condition : Type} (language : Policy.Conditions Condition Facts) {κ : Type} {reader : Reader κ}
    (distinct : reader.Distinct) :
    (∀ key name depth,
      (Broken reader depth key ∧ ∃ error, readTree reader key name depth = .error error) ∨
        (¬Broken reader depth key ∧
          ∃ tree, readTree reader key name depth = .ok tree ∧ tree.name = name ∧ Complete reader key tree)) ∧
      ∀ {κ' : Type} {other : Reader κ'} {related : κ → κ' → Prop}, SameContents reader other related →
        (∀ key key', related key key' → ∀ name depth, readTree reader key name depth = readTree other key' name depth) ∧
        ∀ root root', Option.Rel related root root' → loadRoot reader root = loadRoot other root' ∧
          ∀ (d : Daemon Condition) interfaces, loadRoot reader root = .ok d.config →
            d.reload language ⟨.events, (loadRoot other root').toOption, interfaces⟩ = (d, none, true) := by
  refine ⟨fun key name depth => ?_, fun same => ⟨?_, ?_⟩⟩
  · by_cases broken : Broken reader depth key
    · have whole := readLevels_of_broken distinct broken name
      cases read : readTree reader key name depth with
      | error error => exact .inl ⟨broken, error, rfl⟩
      | ok tree => exact absurd read (whole tree)
    · obtain ⟨tree, read⟩ := exists_readLevels distinct rfl broken name
      exact .inr ⟨broken, tree, read, name_of_readLevels read, readLevels_complete distinct read⟩
  · exact fun key key' both name depth => readTree_eq distinct same both name depth
  · intro root root' both
    have equal := loadRoot_eq distinct same both
    refine ⟨equal, fun d interfaces held => ?_⟩
    rw [← equal, held]
    exact reload_unchanged language d interfaces

/-! ## Two enumerations -/

inductive SampleKey where
  | root
  | profiles
  | wired
  | home
deriving DecidableEq

/-- A root with two profiles, one of which has two values, enumerated forwards or backwards. -/
def sample (backwards : Bool) : Reader SampleKey :=
  let enumerate {α : Type} (items : List α) : List α := if backwards then items.reverse else items
  { value := fun _ _ => .ok none
    values := fun
      | .wired => .ok (enumerate [⟨[68, 110, 115], .sz, [97, 0]⟩, ⟨[77, 116, 117], .dword, [220, 5, 0, 0]⟩])
      | _ => .ok []
    names := fun
      | .root => .ok [[80, 114, 111, 102, 105, 108, 101, 115]]
      | .profiles => .ok (enumerate [[119, 105, 114, 101, 100], [104, 111, 109, 101]])
      | _ => .ok []
    child := fun
      | .root, name => .ok (if name = "Profiles" then some .profiles else none)
      | .profiles, name => .ok (if name = "wired" then some .wired else if name = "home" then some .home else none)
      | _, _ => .ok none }

theorem sample_distinct : (sample false).Distinct where
  values := by
    intro key records held
    cases key <;>
    · obtain rfl := Except.ok.inj held
      decide
  names := by
    intro key names held
    cases key <;>
    · obtain rfl := Except.ok.inj held
      decide

theorem sample_same : SameContents (sample false) (sample true) Eq where
  value := fun _ _ => rfl
  values := by
    rintro key - rfl
    cases key with
    | wired => exact .ok (List.reverse_perm _).symm
    | _ => exact .ok (.refl _)
  names := by
    rintro key - rfl
    cases key with
    | profiles => exact .ok (List.reverse_perm _).symm
    | _ => exact .ok (.refl _)
  child := by
    rintro key - rfl name
    have refl (found : Option SampleKey) : Option.Rel Eq found found := by
      cases found with
      | none => exact .none
      | some key => exact .some rfl
    cases key <;> exact .ok (refl _)

theorem sample_names : readNames (sample false) .profiles = .ok ["home", "wired"] := by
  have read : ([[119, 105, 114, 101, 100], [104, 111, 109, 101]] : List Bytes).mapM text =
      .ok ["wired", "home"] := by
    decide +kernel
  change (([[119, 105, 114, 101, 100], [104, 111, 109, 101]] : List Bytes).mapM text >>= fun names =>
    .ok (Sorting.sortOn id names)) = _
  rw [read]
  simp [Sorting.sortOn, List.mergeSort, List.MergeSort.Internal.splitInTwo, bind, Except.bind]

theorem sample_values : readValues (sample false) .wired = .ok [("Dns", .str "a"), ("Mtu", .int 1500)] := by
  have read : ([⟨[68, 110, 115], .sz, [97, 0]⟩, ⟨[77, 116, 117], .dword, [220, 5, 0, 0]⟩] : List ValueRecord).mapM
      lowerRecord = .ok [some ("Dns", .str "a"), some ("Mtu", .int 1500)] := by
    decide +kernel
  change (([⟨[68, 110, 115], .sz, [97, 0]⟩, ⟨[77, 116, 117], .dword, [220, 5, 0, 0]⟩] : List ValueRecord).mapM
    lowerRecord >>= fun values => .ok (Sorting.sortOn Prod.fst values.reduceOption)) = _
  rw [read]
  simp [Sorting.sortOn, List.mergeSort, List.MergeSort.Internal.splitInTwo, bind, Except.bind, List.reduceOption]

/-- A key with nothing in it. -/
theorem readValues_nil {κ : Type} {reader : Reader κ} {key : κ} (none : reader.values key = .ok []) :
    readValues reader key = .ok [] := by
  rw [readValues, none]
  simp [Sorting.sortOn, bind, Except.bind, pure, Except.pure]

theorem readNames_nil {κ : Type} {reader : Reader κ} {key : κ} (none : reader.names key = .ok []) :
    readNames reader key = .ok [] := by
  rw [readNames, none]
  simp [Sorting.sortOn, bind, Except.bind, pure, Except.pure]

/-- The profiles, by name. -/
def sampleTree : RawKey :=
  ⟨"Profiles", [], [⟨"home", [], []⟩, ⟨"wired", [("Dns", .str "a"), ("Mtu", .int 1500)], []⟩]⟩

theorem sample_tree : readTree (sample false) .profiles "Profiles" 0 = .ok sampleTree := by
  have home : readLevels (sample false) 15 .home "home" = .ok ⟨"home", [], []⟩ := by
    rw [readLevels, readValues_nil rfl, readNames_nil rfl]
    rfl
  have wired : readLevels (sample false) 15 .wired "wired" =
      .ok ⟨"wired", [("Dns", .str "a"), ("Mtu", .int 1500)], []⟩ := by
    rw [readLevels, sample_values, readNames_nil rfl]
    rfl
  have homeOpened : openChild (sample false) .profiles "home" = .ok .home := rfl
  have wiredOpened : openChild (sample false) .profiles "wired" = .ok .wired := rfl
  change readLevels (sample false) 16 .profiles "Profiles" = _
  rw [readLevels, readValues_nil rfl, sample_names]
  simp [bind, Except.bind, pure, Except.pure, homeOpened, wiredOpened, home, wired, sampleTree]

theorem sample_config : loadRoot (sample false) (some .root) = .ok { profiles := some sampleTree } := by
  have value (name : String) : (sample false).value .root name = .ok none := rfl
  have rules : (sample false).child .root "Rules" = .ok none := rfl
  have profiles : (sample false).child .root "Profiles" = .ok (some .profiles) := rfl
  simp [loadRoot, readSz, readControlSecurity, readDuid, readRules, value, rules, profiles, sample_tree, bind,
    Except.bind, pure, Except.pure]

/-- The language of a machine without conditions. -/
def noConditions : Policy.Conditions Unit Facts := ⟨fun _ _ _ => .ok ((), false), fun _ => false, fun _ _ => true⟩

theorem sample_reloads :
    loadRoot (sample false) (some .root) = loadRoot (sample true) (some .root) ∧
      readTree (sample false) .profiles "Profiles" 0 = readTree (sample true) .profiles "Profiles" 0 ∧
      let d : Daemon Unit := ⟨{ profiles := some sampleTree }, {}, none, none⟩
      d.reload noConditions ⟨.events, (loadRoot (sample true) (some .root)).toOption, []⟩ = (d, none, true) :=
  have same := (reads_canonical noConditions sample_distinct).2 sample_same
  have loads := same.2 (some .root) (some .root) (.some rfl)
  ⟨loads.1, same.1 .profiles .profiles rfl "Profiles" 0,
    loads.2 ⟨{ profiles := some sampleTree }, {}, none, none⟩ [] sample_config⟩

end Netd.Model.Registry
