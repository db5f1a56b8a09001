import Mathlib.Data.List.ReduceOption
import Netd.Machine.Fallible
import Netd.Model.Registry
import Netd.Proofs.Text.Utf8

/-! # A tree is read whole or not at all

Names that are distinct octets are distinct texts, so sorting puts what was enumerated in one order only.
A tree that was read has every named value and every subkey once, and a failure anywhere in it is a failure
of the whole read.
-/

namespace Netd.Model.Registry

/-! ## Texts -/

theorem text_eq_ok {bytes : Bytes} {out : String} : text bytes = .ok out ↔ fromUtf8 bytes = some out := by
  rw [text]
  cases fromUtf8 bytes with
  | none => exact iff_of_false nofun nofun
  | some found => rw [Except.ok.injEq, Option.some_inj]

theorem text_error {bytes : Bytes} {error : IoError} (failed : text bytes = .error error) :
    error = invalid "configuration text is not UTF-8" := by
  rw [text] at failed
  cases spelled : fromUtf8 bytes with
  | none =>
    rw [spelled] at failed
    exact (Except.error.inj failed).symm
  | some found =>
    rw [spelled] at failed
    cases failed

theorem asBytes_text {bytes : Bytes} {out : String} (read : text bytes = .ok out) : asBytes out = bytes :=
  asBytes_fromUtf8 (text_eq_ok.mp read)

/-! ## Values -/

/-- The texts in the data of a value. -/
def texts : ValueType → Bytes → List Bytes
  | .sz, data | .expandSz, data => [untilNul data]
  | .multiSz, data => (data.splitOn 0).filter fun part => !part.isEmpty
  | _, _ => []

theorem exists_lowerValue (ty : ValueType) (data : Bytes) :
    (∃ value, lowerValue ty data = .ok value) ↔ ∀ part ∈ texts ty data, ∃ out, fromUtf8 part = some out := by
  have plain {value : RawValue} : (∃ out, (Except.ok value : Except IoError RawValue) = .ok out) ↔
      ∀ part ∈ ([] : List Bytes), ∃ out, fromUtf8 part = some out :=
    iff_of_true ⟨value, rfl⟩ (List.forall_mem_nil _)
  have single : (∃ out, (text (untilNul data)).map RawValue.str = .ok out) ↔
      ∀ part ∈ [untilNul data], ∃ out, fromUtf8 part = some out := by
    simp only [Fallible.exists_map, List.forall_mem_singleton, text_eq_ok]
  cases ty with
  | binary => exact plain
  | dword => exact plain
  | qword => exact plain
  | sz => exact single
  | expandSz => exact single
  | multiSz =>
    rw [lowerValue, Fallible.exists_map, Fallible.exists_mapM]
    simp only [text_eq_ok, texts]
  | other => exact plain

theorem lowerValue_error {ty : ValueType} {data : Bytes} {error : IoError} (failed : lowerValue ty data = .error error) :
    error = invalid "configuration text is not UTF-8" := by
  cases ty with
  | binary => cases failed
  | dword => cases failed
  | qword => cases failed
  | sz => exact text_error (Fallible.map_eq_error.mp failed)
  | expandSz => exact text_error (Fallible.map_eq_error.mp failed)
  | multiSz =>
    obtain ⟨part, -, failed⟩ := Fallible.mapM_eq_error (Fallible.map_eq_error.mp failed)
    exact text_error failed
  | other => cases failed

/-- What is named, and what of it is text, is UTF-8. -/
def ValueRecord.Legible (record : ValueRecord) : Prop :=
  ∃ name, fromUtf8 record.name = some name ∧
    (name = "" ∨ ∀ part ∈ texts record.ty record.data, ∃ out, fromUtf8 part = some out)

/-- A named value as it stands in a tree. -/
def ValueRecord.Lowers (record : ValueRecord) (entry : String × RawValue) : Prop :=
  fromUtf8 record.name = some entry.1 ∧ entry.1 ≠ "" ∧ lowerValue record.ty record.data = .ok entry.2

theorem lowerRecord_unnamed {record : ValueRecord} (unnamed : fromUtf8 record.name = some "") :
    lowerRecord record = .ok none := by
  rw [lowerRecord, text_eq_ok.mpr unnamed]
  rfl

theorem lowerRecord_named {record : ValueRecord} {name : String} (named : fromUtf8 record.name = some name)
    (nonempty : name ≠ "") :
    lowerRecord record = (lowerValue record.ty record.data).map fun value => some (name, value) := by
  have filled : name.isEmpty = false := Bool.eq_false_iff.mpr fun empty => nonempty (String.isEmpty_iff.mp empty)
  rw [lowerRecord, text_eq_ok.mpr named]
  change (if name.isEmpty = true then _ else _) = _
  rw [filled]
  rfl

theorem lowerRecord_illegible {record : ValueRecord} (illegible : fromUtf8 record.name = none) :
    lowerRecord record = .error (invalid "configuration text is not UTF-8") := by
  have failed : text record.name = .error (invalid "configuration text is not UTF-8") := by rw [text, illegible]
  rw [lowerRecord, failed]
  rfl

theorem exists_lowerRecord (record : ValueRecord) : (∃ out, lowerRecord record = .ok out) ↔ record.Legible := by
  rw [ValueRecord.Legible, ← exists_lowerValue]
  cases spelled : fromUtf8 record.name with
  | none =>
    rw [lowerRecord_illegible spelled]
    exact iff_of_false nofun nofun
  | some name =>
    by_cases unnamed : name = ""
    · subst unnamed
      exact iff_of_true ⟨none, lowerRecord_unnamed spelled⟩ ⟨"", rfl, .inl rfl⟩
    · rw [lowerRecord_named spelled unnamed, Fallible.exists_map]
      constructor
      · exact fun lowered => ⟨name, rfl, .inr lowered⟩
      · rintro ⟨other, same, lowered⟩
        obtain rfl := Option.some.inj same
        exact lowered.resolve_left unnamed

theorem lowerRecord_eq_some {record : ValueRecord} {entry : String × RawValue} :
    lowerRecord record = .ok (some entry) ↔ record.Lowers entry := by
  cases spelled : fromUtf8 record.name with
  | none =>
    rw [lowerRecord_illegible spelled, ValueRecord.Lowers, spelled]
    exact iff_of_false nofun nofun
  | some name =>
    rw [ValueRecord.Lowers, spelled]
    by_cases unnamed : name = ""
    · subst unnamed
      rw [lowerRecord_unnamed spelled]
      refine iff_of_false nofun ?_
      rintro ⟨same, named, -⟩
      exact named (Option.some.inj same).symm
    · rw [lowerRecord_named spelled unnamed, Fallible.map_eq_ok]
      constructor
      · rintro ⟨value, lowered, same⟩
        obtain rfl := Option.some.inj same
        exact ⟨rfl, unnamed, lowered⟩
      · rintro ⟨same, -, lowered⟩
        obtain rfl := Option.some.inj same
        exact ⟨entry.2, lowered, rfl⟩

theorem lowerRecord_error {record : ValueRecord} {error : IoError} (failed : lowerRecord record = .error error) :
    error = invalid "configuration text is not UTF-8" := by
  cases spelled : fromUtf8 record.name with
  | none =>
    rw [lowerRecord_illegible spelled] at failed
    exact (Except.error.inj failed).symm
  | some name =>
    by_cases unnamed : name = ""
    · subst unnamed
      rw [lowerRecord_unnamed spelled] at failed
      cases failed
    · rw [lowerRecord_named spelled unnamed] at failed
      exact lowerValue_error (Fallible.map_eq_error.mp failed)

/-! ## Keys -/

section Keys

variable {κ : Type} {reader : Reader κ}

/-- The values of a key have distinct names, and so have its subkeys. -/
structure Reader.Distinct (reader : Reader κ) : Prop where
  values : ∀ key records, reader.values key = .ok records → (records.map ValueRecord.name).Nodup
  names : ∀ key names, reader.names key = .ok names → names.Nodup

/-- Distinct octets are distinct texts. -/
theorem lowered_nodup {records : List ValueRecord} {lowered : List (Option (String × RawValue))}
    (run : records.mapM lowerRecord = .ok lowered) (distinct : (records.map ValueRecord.name).Nodup) :
    (lowered.reduceOption.map Prod.fst).Nodup := by
  have kept : (lowered.reduceOption.map fun entry => asBytes entry.1).Sublist (records.map ValueRecord.name) := by
    clear distinct
    induction records generalizing lowered with
    | nil =>
      obtain rfl := Except.ok.inj run
      exact .slnil
    | cons record rest ih =>
      obtain ⟨out, later, here, others, rfl⟩ := Fallible.mapM_cons_eq_ok.mp run
      cases out with
      | none =>
        rw [List.reduceOption_cons_of_none]
        exact (ih others).cons _
      | some entry =>
        have name : asBytes entry.1 = record.name := asBytes_fromUtf8 (lowerRecord_eq_some.mp here).1
        rw [List.reduceOption_cons_of_some, List.map_cons, List.map_cons, name]
        exact (ih others).cons_cons _
  have apart := kept.nodup distinct
  rw [← Function.comp_def asBytes Prod.fst, ← List.map_map] at apart
  exact apart.of_map _

theorem spelled_nodup {raw : List Bytes} {spelled : List String} (run : raw.mapM text = .ok spelled)
    (distinct : raw.Nodup) : (spelled.map id).Nodup := by
  have whole := Fallible.map_of_mapM run fun _ _ => asBytes_text
  rw [List.map_id]
  exact List.Nodup.of_map asBytes (whole.symm ▸ distinct)

theorem readValues_ok (distinct : reader.Distinct) {key : κ} {values : List (String × RawValue)}
    (read : readValues reader key = .ok values) : ∃ records, reader.values key = .ok records ∧
      (values.Pairwise fun a b => a.1 < b.1) ∧ ∀ entry, entry ∈ values ↔ ∃ record ∈ records, record.Lowers entry := by
  obtain ⟨records, held, read⟩ := Fallible.bind_eq_ok.mp read
  obtain ⟨lowered, run, read⟩ := Fallible.bind_eq_ok.mp read
  obtain rfl := Except.ok.inj read
  refine ⟨records, held, Sorting.sortOn_lt (lowered_nodup run (distinct.values key records held)), fun entry => ?_⟩
  rw [(Sorting.sortOn_perm Prod.fst lowered.reduceOption).mem_iff, List.reduceOption_mem_iff]
  constructor
  · intro member
    obtain ⟨record, there, step⟩ := Fallible.mem_of_mapM run _ member
    exact ⟨record, there, lowerRecord_eq_some.mp step⟩
  · rintro ⟨record, there, lowers⟩
    exact Fallible.mem_mapM run there (lowerRecord_eq_some.mpr lowers)

theorem exists_readValues (key : κ) : (∃ values, readValues reader key = .ok values) ↔
    ∃ records, reader.values key = .ok records ∧ ∀ record ∈ records, record.Legible := by
  constructor
  · rintro ⟨values, read⟩
    obtain ⟨records, held, read⟩ := Fallible.bind_eq_ok.mp read
    obtain ⟨lowered, run, -⟩ := Fallible.bind_eq_ok.mp read
    exact ⟨records, held, fun record there => (exists_lowerRecord record).mp (Fallible.exists_mapM.mp ⟨_, run⟩ record there)⟩
  · rintro ⟨records, held, legible⟩
    obtain ⟨lowered, run⟩ := Fallible.exists_mapM.mpr fun record there => (exists_lowerRecord record).mpr (legible record there)
    exact ⟨_, Fallible.bind_eq_ok.mpr ⟨records, held, Fallible.bind_eq_ok.mpr ⟨lowered, run, rfl⟩⟩⟩

theorem readNames_ok (distinct : reader.Distinct) {key : κ} {names : List String}
    (read : readNames reader key = .ok names) : ∃ raw, reader.names key = .ok raw ∧
      names.Pairwise (· < ·) ∧ ∀ name, name ∈ names ↔ ∃ octets ∈ raw, fromUtf8 octets = some name := by
  obtain ⟨raw, held, read⟩ := Fallible.bind_eq_ok.mp read
  obtain ⟨spelled, run, read⟩ := Fallible.bind_eq_ok.mp read
  obtain rfl := Except.ok.inj read
  refine ⟨raw, held, Sorting.sortOn_lt (spelled_nodup run (distinct.names key raw held)), fun name => ?_⟩
  rw [(Sorting.sortOn_perm id spelled).mem_iff]
  constructor
  · intro member
    obtain ⟨octets, there, step⟩ := Fallible.mem_of_mapM run _ member
    exact ⟨octets, there, text_eq_ok.mp step⟩
  · rintro ⟨octets, there, spells⟩
    exact Fallible.mem_mapM run there (text_eq_ok.mpr spells)

theorem exists_readNames (key : κ) : (∃ names, readNames reader key = .ok names) ↔
    ∃ raw, reader.names key = .ok raw ∧ ∀ octets ∈ raw, ∃ name, fromUtf8 octets = some name := by
  constructor
  · rintro ⟨names, read⟩
    obtain ⟨raw, held, read⟩ := Fallible.bind_eq_ok.mp read
    obtain ⟨spelled, run, -⟩ := Fallible.bind_eq_ok.mp read
    refine ⟨raw, held, fun octets there => ?_⟩
    obtain ⟨name, step⟩ := Fallible.exists_mapM.mp ⟨_, run⟩ octets there
    exact ⟨name, text_eq_ok.mp step⟩
  · rintro ⟨raw, held, spells⟩
    obtain ⟨spelled, run⟩ := (@Fallible.exists_mapM _ _ _ text raw).mpr fun octets there =>
      (spells octets there).imp fun _ => text_eq_ok.mpr
    exact ⟨_, Fallible.bind_eq_ok.mpr ⟨raw, held, Fallible.bind_eq_ok.mpr ⟨spelled, run, rfl⟩⟩⟩

/-! ## Trees -/

/-- A failure somewhere in a tree: a read that fails, a text that is none, a subkey that has gone, or one
that lies too deep. -/
inductive Broken (reader : Reader κ) : ℕ → κ → Prop where
  | values {depth : ℕ} {key : κ} {error : IoError} (failed : reader.values key = .error error) : Broken reader depth key
  | record {depth : ℕ} {key : κ} {records : List ValueRecord} {record : ValueRecord}
      (held : reader.values key = .ok records) (there : record ∈ records) (illegible : ¬record.Legible) :
      Broken reader depth key
  | names {depth : ℕ} {key : κ} {error : IoError} (failed : reader.names key = .error error) : Broken reader depth key
  | name {depth : ℕ} {key : κ} {raw : List Bytes} {octets : Bytes} (held : reader.names key = .ok raw)
      (there : octets ∈ raw) (illegible : fromUtf8 octets = none) : Broken reader depth key
  | deep {depth : ℕ} {key : κ} {raw : List Bytes} {octets : Bytes} (held : reader.names key = .ok raw)
      (there : octets ∈ raw) (deep : maxDepth ≤ depth) : Broken reader depth key
  | child {depth : ℕ} {key : κ} {raw : List Bytes} {octets : Bytes} {name : String} {error : IoError}
      (held : reader.names key = .ok raw) (there : octets ∈ raw) (spells : fromUtf8 octets = some name)
      (failed : reader.child key name = .error error) : Broken reader depth key
  | disappeared {depth : ℕ} {key : κ} {raw : List Bytes} {octets : Bytes} {name : String}
      (held : reader.names key = .ok raw) (there : octets ∈ raw) (spells : fromUtf8 octets = some name)
      (gone : reader.child key name = .ok none) : Broken reader depth key
  | deeper {depth : ℕ} {key child : κ} {raw : List Bytes} {octets : Bytes} {name : String}
      (held : reader.names key = .ok raw) (there : octets ∈ raw) (spells : fromUtf8 octets = some name)
      (found : reader.child key name = .ok (some child)) (broken : Broken reader (depth + 1) child) :
      Broken reader depth key

/-- A tree that has every named value and every subkey of a key, each once and by name. -/
inductive Complete (reader : Reader κ) : κ → RawKey → Prop where
  | intro {key : κ} {records : List ValueRecord} {raw : List Bytes} {tree : RawKey}
      (held : reader.values key = .ok records) (ordered : tree.values.Pairwise fun a b => a.1 < b.1)
      (values : ∀ entry, entry ∈ tree.values ↔ ∃ record ∈ records, record.Lowers entry)
      (enumerated : reader.names key = .ok raw) (sorted : tree.children.Pairwise fun a b => a.name < b.name)
      (names : ∀ name, name ∈ tree.children.map RawKey.name ↔ ∃ octets ∈ raw, fromUtf8 octets = some name)
      (found : ∀ child ∈ tree.children, ∃ key', reader.child key child.name = .ok (some key'))
      (children : ∀ child ∈ tree.children, ∀ key', reader.child key child.name = .ok (some key') →
        Complete reader key' child) : Complete reader key tree

theorem openChild_eq_ok {key child : κ} {name : String} :
    openChild reader key name = .ok child ↔ reader.child key name = .ok (some child) := by
  rw [openChild]
  cases found : reader.child key name with
  | error error => exact iff_of_false nofun nofun
  | ok there =>
    cases there with
    | none => exact iff_of_false nofun nofun
    | some other =>
      change (Except.ok other : Except IoError κ) = .ok child ↔ _
      rw [Except.ok.injEq, Except.ok.injEq, Option.some_inj]

/-- Reading a tree down to a level, in one piece for the last level and those above it. -/
theorem readLevels_eq_ok {levels : ℕ} {key : κ} {name : String} {tree : RawKey} :
    readLevels reader levels key name = .ok tree ↔
      ∃ values names children, readValues reader key = .ok values ∧ readNames reader key = .ok names ∧
        (levels = 0 → names = []) ∧
        (names.mapM fun name => (openChild reader key name).bind fun child => readLevels reader (levels - 1) child name) =
          .ok children ∧
        tree = ⟨name, values, children⟩ := by
  cases levels with
  | zero =>
    rw [readLevels]
    constructor
    · intro read
      obtain ⟨values, held, read⟩ := Fallible.bind_eq_ok.mp read
      obtain ⟨names, enumerated, read⟩ := Fallible.bind_eq_ok.mp read
      by_cases none : names = []
      · subst none
        obtain rfl := Except.ok.inj read
        exact ⟨values, [], [], held, enumerated, fun _ => rfl, rfl, rfl⟩
      · rw [if_pos none] at read
        cases read
    · rintro ⟨values, names, children, held, enumerated, none, run, rfl⟩
      obtain rfl := none rfl
      obtain rfl := Except.ok.inj run
      exact Fallible.bind_eq_ok.mpr ⟨values, held, Fallible.bind_eq_ok.mpr ⟨[], enumerated, rfl⟩⟩
  | succ levels =>
    rw [readLevels]
    constructor
    · intro read
      obtain ⟨values, held, read⟩ := Fallible.bind_eq_ok.mp read
      obtain ⟨names, enumerated, read⟩ := Fallible.bind_eq_ok.mp read
      obtain ⟨children, run, read⟩ := Fallible.bind_eq_ok.mp read
      exact ⟨values, names, children, held, enumerated, nofun, run, (Except.ok.inj read).symm⟩
    · rintro ⟨values, names, children, held, enumerated, -, run, rfl⟩
      exact Fallible.bind_eq_ok.mpr ⟨values, held, Fallible.bind_eq_ok.mpr ⟨names, enumerated,
        Fallible.bind_eq_ok.mpr ⟨children, run, rfl⟩⟩⟩

/-- A tree has the name it was asked for by. -/
theorem name_of_readLevels {levels : ℕ} {key : κ} {name : String} {tree : RawKey}
    (read : readLevels reader levels key name = .ok tree) : tree.name = name := by
  obtain ⟨values, names, children, -, -, -, -, rfl⟩ := readLevels_eq_ok.mp read
  rfl

theorem complete_step (distinct : reader.Distinct) {levels : ℕ} {key : κ} {name : String} {tree : RawKey}
    (below : levels ≠ 0 → ∀ {key' : κ} {name' : String} {tree' : RawKey},
      readLevels reader (levels - 1) key' name' = .ok tree' → Complete reader key' tree')
    (read : readLevels reader levels key name = .ok tree) : Complete reader key tree := by
  obtain ⟨values, names, children, held, enumerated, none, run, rfl⟩ := readLevels_eq_ok.mp read
  obtain ⟨records, answered, ordered, members⟩ := readValues_ok distinct held
  obtain ⟨raw, listed, sorted, spelled⟩ := readNames_ok distinct enumerated
  have named : children.map RawKey.name = names := by
    apply Fallible.map_of_mapM run
    intro name child step
    obtain ⟨key', -, read⟩ := Fallible.bind_eq_ok.mp step
    exact name_of_readLevels read
  have taken : ∀ child ∈ children, ∃ key', reader.child key child.name = .ok (some key') ∧
      readLevels reader (levels - 1) key' child.name = .ok child := by
    intro child member
    obtain ⟨name, -, step⟩ := Fallible.mem_of_mapM run child member
    obtain ⟨key', opened, read⟩ := Fallible.bind_eq_ok.mp step
    obtain rfl := name_of_readLevels read
    exact ⟨key', openChild_eq_ok.mp opened, read⟩
  subst named
  refine .intro answered ordered members listed (List.pairwise_map.mp sorted) spelled ?_ ?_
  · intro child member
    obtain ⟨key', opened, -⟩ := taken child member
    exact ⟨key', opened⟩
  · intro child member key' found
    obtain ⟨other, opened, read⟩ := taken child member
    obtain rfl := Option.some.inj (Except.ok.inj (opened.symm.trans found))
    -- a key on the last level has no subkeys
    have levels_left : levels ≠ 0 := fun last => by
      have bare := List.map_eq_nil_iff.mp (none last)
      subst bare
      cases member
    exact below levels_left read

/-- What has been read is complete. -/
theorem readLevels_complete (distinct : reader.Distinct) {levels : ℕ} {key : κ} {name : String} {tree : RawKey}
    (read : readLevels reader levels key name = .ok tree) : Complete reader key tree := by
  induction levels generalizing key name tree with
  | zero => exact complete_step distinct (fun positive => absurd rfl positive) read
  | succ levels ih => exact @complete_step _ _ distinct (levels + 1) _ _ _ (fun _ => ih) read

/-- Every subkey that is enumerated has been read, one level down. -/
theorem subkey_read (distinct : reader.Distinct) {levels : ℕ} {key : κ} {name : String} {tree : RawKey}
    (read : readLevels reader levels key name = .ok tree) {raw : List Bytes} (held : reader.names key = .ok raw)
    {octets : Bytes} (there : octets ∈ raw) {sub : String} (spells : fromUtf8 octets = some sub) :
    levels ≠ 0 ∧ ∃ child tree', reader.child key sub = .ok (some child) ∧
      readLevels reader (levels - 1) child sub = .ok tree' := by
  obtain ⟨values, names, children, -, enumerated, none, run, -⟩ := readLevels_eq_ok.mp read
  obtain ⟨raw', listed, -, spelled⟩ := readNames_ok distinct enumerated
  obtain rfl := Except.ok.inj (held.symm.trans listed)
  have member : sub ∈ names := (spelled sub).mpr ⟨octets, there, spells⟩
  constructor
  · intro last
    rw [none last] at member
    cases member
  · obtain ⟨tree', step⟩ := Fallible.exists_mapM.mp ⟨children, run⟩ sub member
    obtain ⟨child, opened, read⟩ := Fallible.bind_eq_ok.mp step
    exact ⟨child, tree', openChild_eq_ok.mp opened, read⟩

theorem values_read {levels : ℕ} {key : κ} {name : String} {tree : RawKey}
    (read : readLevels reader levels key name = .ok tree) :
    ∃ records, reader.values key = .ok records ∧ ∀ record ∈ records, record.Legible := by
  obtain ⟨values, names, children, valued, -⟩ := readLevels_eq_ok.mp read
  exact (exists_readValues key).mp ⟨values, valued⟩

theorem names_read {levels : ℕ} {key : κ} {name : String} {tree : RawKey}
    (read : readLevels reader levels key name = .ok tree) :
    ∃ raw, reader.names key = .ok raw ∧ ∀ octets ∈ raw, ∃ sub, fromUtf8 octets = some sub := by
  obtain ⟨values, names, children, -, enumerated, -⟩ := readLevels_eq_ok.mp read
  exact (exists_readNames key).mp ⟨names, enumerated⟩

/-- A failure anywhere is a failure of the whole. -/
theorem readLevels_of_broken (distinct : reader.Distinct) {depth : ℕ} {key : κ} (broken : Broken reader depth key)
    (name : String) (tree : RawKey) : readLevels reader (maxDepth - depth) key name ≠ .ok tree := by
  intro read
  induction broken generalizing name tree with
  | values failed =>
    obtain ⟨records, answered, -⟩ := values_read read
    cases failed.symm.trans answered
  | record held there illegible =>
    obtain ⟨records, answered, legible⟩ := values_read read
    obtain rfl := Except.ok.inj (held.symm.trans answered)
    exact illegible (legible _ there)
  | names failed =>
    obtain ⟨raw, listed, -⟩ := names_read read
    cases failed.symm.trans listed
  | name held there illegible =>
    obtain ⟨raw, listed, spelled⟩ := names_read read
    obtain rfl := Except.ok.inj (held.symm.trans listed)
    obtain ⟨sub, spells⟩ := spelled _ there
    cases illegible.symm.trans spells
  | deep held there deep =>
    obtain ⟨raw, listed, spelled⟩ := names_read read
    obtain rfl := Except.ok.inj (held.symm.trans listed)
    obtain ⟨sub, spells⟩ := spelled _ there
    have levels := (subkey_read distinct read held there spells).1
    omega
  | child held there spells failed =>
    obtain ⟨-, child, -, found, -⟩ := subkey_read distinct read held there spells
    cases failed.symm.trans found
  | disappeared held there spells gone =>
    obtain ⟨-, child, -, found, -⟩ := subkey_read distinct read held there spells
    cases gone.symm.trans found
  | deeper held there spells found broken ih =>
    obtain ⟨-, child, tree', opened, read'⟩ := subkey_read distinct read held there spells
    obtain rfl := Option.some.inj (Except.ok.inj (found.symm.trans opened))
    rw [Nat.sub_sub] at read'
    exact ih _ tree' read'

theorem whole_step (distinct : reader.Distinct) {levels depth : ℕ} (counted : levels = maxDepth - depth) {key : κ}
    (below : levels ≠ 0 → ∀ {child : κ} (sub : String), ¬Broken reader (depth + 1) child →
      ∃ tree, readLevels reader (levels - 1) child sub = .ok tree)
    (whole : ¬Broken reader depth key) (name : String) : ∃ tree, readLevels reader levels key name = .ok tree := by
  obtain ⟨values, valued⟩ : ∃ values, readValues reader key = .ok values := by
    refine (exists_readValues key).mpr ?_
    cases held : reader.values key with
    | error error => exact absurd (.values held) whole
    | ok records =>
      refine ⟨records, rfl, fun record there => ?_⟩
      by_contra illegible
      exact whole (.record held there illegible)
  obtain ⟨names, enumerated⟩ : ∃ names, readNames reader key = .ok names := by
    refine (exists_readNames key).mpr ?_
    cases held : reader.names key with
    | error error => exact absurd (.names held) whole
    | ok raw =>
      refine ⟨raw, rfl, fun octets there => ?_⟩
      cases spells : fromUtf8 octets with
      | none => exact absurd (.name held there spells) whole
      | some sub => exact ⟨sub, rfl⟩
  obtain ⟨raw, held, -, spelled⟩ := readNames_ok distinct enumerated
  have bare (last : levels = 0) : names = [] := by
    apply List.eq_nil_iff_forall_not_mem.mpr
    intro sub member
    obtain ⟨octets, there, -⟩ := (spelled sub).mp member
    exact whole (.deep held there (by omega))
  have each : ∀ sub ∈ names, ∃ tree,
      ((openChild reader key sub).bind fun child => readLevels reader (levels - 1) child sub) = .ok tree := by
    intro sub member
    obtain ⟨octets, there, spells⟩ := (spelled sub).mp member
    have positive : levels ≠ 0 := fun last => absurd member (bare last ▸ List.not_mem_nil)
    cases found : reader.child key sub with
    | error error => exact absurd (.child held there spells found) whole
    | ok answer =>
      cases answer with
      | none => exact absurd (.disappeared held there spells found) whole
      | some child =>
        have sound : ¬Broken reader (depth + 1) child := fun broken => whole (.deeper held there spells found broken)
        obtain ⟨tree, read⟩ := below positive sub sound
        exact ⟨tree, Fallible.bind_eq_ok.mpr ⟨child, openChild_eq_ok.mpr found, read⟩⟩
  obtain ⟨children, run⟩ := Fallible.exists_mapM.mpr each
  exact ⟨⟨name, values, children⟩,
    readLevels_eq_ok.mpr ⟨values, names, children, valued, enumerated, bare, run, rfl⟩⟩

/-- Without one, there is a tree. -/
theorem exists_readLevels (distinct : reader.Distinct) {levels depth : ℕ} (counted : levels = maxDepth - depth) {key : κ}
    (whole : ¬Broken reader depth key) (name : String) : ∃ tree, readLevels reader levels key name = .ok tree := by
  induction levels generalizing depth key name with
  | zero => exact whole_step distinct counted (fun positive => absurd rfl positive) whole name
  | succ levels ih =>
    have next : levels = maxDepth - (depth + 1) := by omega
    exact whole_step distinct counted (fun _ _ sub sound => ih next sound sub) whole name

end Keys

end Netd.Model.Registry
