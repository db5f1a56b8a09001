import Netd.Proofs.Wire.Formats
import Mathlib.Logic.Relation

/-! # Encodings that mean the same, and encodings that mean nothing

A map of a message may have its fields in another order, and fields that nobody knows; it may not have
a key twice. All of this may be so at any level: a reply holds scopes or interfaces, and an interface
a lease.
-/

namespace Netd.Model.Wire

/-- The kinds of maps there are in messages. -/
inductive Kind where
  | request
  | reply
  | scope
  | interface
  | lease
deriving DecidableEq, Repr

/-- How a kind of map is read: its table, what it starts from, and the keys that are known. -/
structure Format where
  σ : Type
  fields : Fields String Doc σ
  empty : σ
  keys : List String
  unknown : ∀ {key : String} (value : Doc), key ∉ keys → fields.sets key value id

namespace Kind

def format : Kind → Format
  | request => ⟨RequestParts, RequestParts.fields, {}, RequestParts.keys, .unknown⟩
  | reply => ⟨ReplyParts, ReplyParts.fields, {}, ReplyParts.keys, .unknown⟩
  | scope => ⟨DnsScope, DnsScope.fields, {}, DnsScope.keys, .unknown⟩
  | interface => ⟨InterfaceStatus, InterfaceStatus.fields, {}, InterfaceStatus.keys, .unknown⟩
  | lease => ⟨LeaseStatus, LeaseStatus.fields, {}, LeaseStatus.keys, .unknown⟩

/-- The kind of the maps that a field holds. -/
def below (kind : Kind) (key : String) : Option Kind :=
  match kind with
  | reply => if key = "scopes" then some scope else if key = "interfaces" then some interface else none
  | interface => if key = "lease" then some lease else none
  | request | scope | lease => none

/-- A document that is a map of this kind. -/
def Holds (kind : Kind) : Doc → kind.format.σ → Prop := Doc.Holds kind.format.fields kind.format.empty

/-- The reader of a field. -/
def field {ε : Type} (codec : Msgpack ε) (kind : Kind) : kind.format.σ → String → Read ε kind.format.σ :=
  match kind with
  | request => RequestParts.field codec
  | reply => ReplyParts.field codec
  | scope => DnsScope.field codec
  | interface => InterfaceStatus.field codec
  | lease => LeaseStatus.field codec

end Kind

/-! ## One alteration -/

/-- Fields in another order, a field that nobody knows, or either of them further inside. -/
inductive Alters : Kind → Doc → Doc → Prop
  | permute {kind : Kind} {content other : List (String × Doc)} (same : content.Perm other) :
      Alters kind (.map content) (.map other)
  | add {kind : Kind} {first second : List (String × Doc)} {key : String} (value : Doc)
      (unknown : key ∉ kind.format.keys) (fresh : key ∉ (first ++ second).map Prod.fst) :
      Alters kind (.map (first ++ second)) (.map (first ++ (key, value) :: second))
  | inside {kind inner : Kind} {first second : List (String × Doc)} {key : String} {value other : Doc}
      (below : kind.below key = some inner) (alters : Alters inner value other) :
      Alters kind (.map (first ++ (key, value) :: second)) (.map (first ++ (key, other) :: second))
  | item {kind inner : Kind} {first second : List (String × Doc)} {key : String} {before after : List Doc}
      {value other : Doc} (below : kind.below key = some inner) (alters : Alters inner value other) :
      Alters kind (.map (first ++ (key, .array (before ++ value :: after)) :: second))
        (.map (first ++ (key, .array (before ++ other :: after)) :: second))

/-- A key of a map once more, with any value, behind the field that has it. -/
inductive Repeats : Kind → String → Doc → Doc → Prop
  | here {kind : Kind} {first second third : List (String × Doc)} {key : String} {value : Doc} (other : Doc) :
      Repeats kind key (.map (first ++ (key, value) :: (second ++ third)))
        (.map (first ++ (key, value) :: (second ++ (key, other) :: third)))
  | inside {kind inner : Kind} {first second : List (String × Doc)} {key again : String} {value other : Doc}
      (below : kind.below key = some inner) (repeats : Repeats inner again value other) :
      Repeats kind again (.map (first ++ (key, value) :: second)) (.map (first ++ (key, other) :: second))
  | item {kind inner : Kind} {first second : List (String × Doc)} {key again : String} {before after : List Doc}
      {value other : Doc} (below : kind.below key = some inner) (repeats : Repeats inner again value other) :
      Repeats kind again (.map (first ++ (key, .array (before ++ value :: after)) :: second))
        (.map (first ++ (key, .array (before ++ other :: after)) :: second))

/-! ## Maps inside of maps -/

/-- The fields that hold maps: the scopes and interfaces of a reply, and the lease of an interface. -/
theorem Kind.below_cases {kind inner : Kind} {key : String} (below : kind.below key = some inner) :
    (kind = .reply ∧ key = "scopes" ∧ inner = .scope) ∨ (kind = .reply ∧ key = "interfaces" ∧ inner = .interface) ∨
      (kind = .interface ∧ key = "lease" ∧ inner = .lease) := by
  cases kind with
  | request => cases below
  | scope => cases below
  | lease => cases below
  | reply =>
    dsimp only [Kind.below] at below
    split_ifs at below with scopes interfaces
    · obtain rfl := Option.some.inj below
      exact .inl ⟨rfl, scopes, rfl⟩
    · obtain rfl := Option.some.inj below
      exact .inr (.inl ⟨rfl, interfaces, rfl⟩)
  | interface =>
    dsimp only [Kind.below] at below
    split_ifs at below with lease
    obtain rfl := Option.some.inj below
    exact .inr (.inr ⟨rfl, lease, rfl⟩)

section Tables

variable {key : String} {d : Doc}

theorem ReplyParts.sets_scopes {effect : ReplyParts → ReplyParts} (sets : ReplyParts.fields.sets key d effect)
    (known : key = "scopes") :
    ∃ items scopes, d = .array items ∧ List.Forall₂ Kind.scope.Holds items scopes ∧
      ∀ {items}, List.Forall₂ Kind.scope.Holds items scopes → ReplyParts.fields.sets key (.array items) effect := by
  cases sets with
  | scopes each => exact ⟨_, _, rfl, each, .scopes⟩
  | unknown value other => exact absurd (known ▸ by decide) other
  | _ => exact absurd known (by decide)

theorem ReplyParts.sets_interfaces {effect : ReplyParts → ReplyParts} (sets : ReplyParts.fields.sets key d effect)
    (known : key = "interfaces") :
    ∃ items interfaces, d = .array items ∧ List.Forall₂ Kind.interface.Holds items interfaces ∧
      ∀ {items}, List.Forall₂ Kind.interface.Holds items interfaces →
        ReplyParts.fields.sets key (.array items) effect := by
  cases sets with
  | interfaces each => exact ⟨_, _, rfl, each, .interfaces⟩
  | unknown value other => exact absurd (known ▸ by decide) other
  | _ => exact absurd known (by decide)

theorem InterfaceStatus.sets_lease {effect : InterfaceStatus → InterfaceStatus}
    (sets : InterfaceStatus.fields.sets key d effect) (known : key = "lease") :
    d = .nil ∨ ∃ l, Kind.lease.Holds d l ∧ ∀ {d}, Kind.lease.Holds d l → InterfaceStatus.fields.sets key d effect := by
  cases sets with
  | lease holds => exact .inr ⟨_, holds, .lease⟩
  | noLease => exact .inl rfl
  | unknown value other => exact absurd (known ▸ by decide) other
  | _ => exact absurd known (by decide)

end Tables

/-- A list with one item that is related to more. -/
theorem forall₂_replace {α β : Type} {related : α → β → Prop} {before after : List α} {value other : α}
    {results : List β}
    (each : List.Forall₂ related (before ++ value :: after) results)
    (same : ∀ result, related value result → related other result) :
    List.Forall₂ related (before ++ other :: after) results := by
  induction before generalizing results with
  | nil =>
    cases each with
    | cons first rest => exact .cons (same _ first) rest
  | cons item before ih =>
    cases each with
    | cons first rest => exact .cons first (ih rest)

/-- The first items of a list, and one that follows. -/
theorem forall₂_split {α β : Type} {related : α → β → Prop} {before after : List α} {value : α} {results : List β}
    (each : List.Forall₂ related (before ++ value :: after) results) :
    ∃ first result, List.Forall₂ related before first ∧ related value result := by
  induction before generalizing results with
  | nil =>
    cases each with
    | cons head rest => exact ⟨[], _, .nil, head⟩
  | cons item before ih =>
    cases each with
    | cons head rest =>
      obtain ⟨first, result, related, here⟩ := ih rest
      exact ⟨_ :: first, result, .cons head related, here⟩

/-- A map that is exchanged for one that means the same changes nothing. -/
theorem Kind.sets_inside {kind inner : Kind} {key : String} {content other : List (String × Doc)}
    {effect : kind.format.σ → kind.format.σ} (below : kind.below key = some inner)
    (same : ∀ record, inner.Holds (.map content) record → inner.Holds (.map other) record)
    (sets : kind.format.fields.sets key (.map content) effect) : kind.format.fields.sets key (.map other) effect := by
  obtain ⟨rfl, known, rfl⟩ | ⟨rfl, known, rfl⟩ | ⟨rfl, known, rfl⟩ := Kind.below_cases below
  · obtain ⟨_, _, array, _⟩ := ReplyParts.sets_scopes sets known
    cases array
  · obtain ⟨_, _, array, _⟩ := ReplyParts.sets_interfaces sets known
    cases array
  · obtain none | ⟨l, holds, sets⟩ := InterfaceStatus.sets_lease sets known
    · cases none
    · exact sets (same l holds)

theorem Kind.sets_item {kind inner : Kind} {key : String} {before after : List Doc} {value other : Doc}
    {effect : kind.format.σ → kind.format.σ} (below : kind.below key = some inner)
    (same : ∀ record, inner.Holds value record → inner.Holds other record)
    (sets : kind.format.fields.sets key (.array (before ++ value :: after)) effect) :
    kind.format.fields.sets key (.array (before ++ other :: after)) effect := by
  obtain ⟨rfl, known, rfl⟩ | ⟨rfl, known, rfl⟩ | ⟨rfl, known, rfl⟩ := Kind.below_cases below
  · obtain ⟨items, scopes, array, each, sets⟩ := ReplyParts.sets_scopes sets known
    obtain rfl := Doc.array.inj array
    exact sets (forall₂_replace each same)
  · obtain ⟨items, interfaces, array, each, sets⟩ := ReplyParts.sets_interfaces sets known
    obtain rfl := Doc.array.inj array
    exact sets (forall₂_replace each same)
  · obtain none | ⟨l, ⟨content, array, _⟩, _⟩ := InterfaceStatus.sets_lease sets known
    · cases none
    · cases array

/-! ## Alterations that mean the same -/

/-- Only maps are altered, and they remain maps. -/
theorem Alters.maps {kind : Kind} {d other : Doc} (alters : Alters kind d other) :
    (∃ content, d = .map content) ∧ ∃ content, other = .map content := by
  cases alters <;> exact ⟨⟨_, rfl⟩, _, rfl⟩

theorem Kind.holds_map {kind : Kind} {content : List (String × Doc)} {record : kind.format.σ} :
    kind.Holds (.map content) record ↔
      (content.map Prod.fst).Nodup ∧ kind.format.fields.Gathers kind.format.empty content record := by
  constructor
  · rintro ⟨_, same, holds⟩
    rwa [Doc.map.inj same]
  · exact fun holds => ⟨content, rfl, holds⟩

theorem keys_replace (first second : List (String × Doc)) (key : String) (value other : Doc) :
    (first ++ (key, value) :: second).map Prod.fst = (first ++ (key, other) :: second).map Prod.fst := by
  simp only [List.map_append, List.map_cons]

/-- A map holds after an alteration what it held before. -/
theorem Alters.holds {kind : Kind} {d other : Doc} (alters : Alters kind d other) (record : kind.format.σ)
    (holds : kind.Holds d record) : kind.Holds other record := by
  induction alters with
  | permute same =>
    obtain ⟨distinct, gathers⟩ := Kind.holds_map.mp holds
    exact Kind.holds_map.mpr ⟨(same.map _).nodup_iff.mp distinct, gathers.perm same distinct⟩
  | @add kind first second key value unknown fresh =>
    obtain ⟨distinct, gathers⟩ := Kind.holds_map.mp holds
    refine Kind.holds_map.mpr ⟨?_, gathers.insert (kind.format.unknown value unknown)⟩
    have moved : ((first ++ (key, value) :: second).map Prod.fst).Perm (key :: (first ++ second).map Prod.fst) :=
      (List.perm_middle.map Prod.fst)
    exact moved.nodup_iff.mpr (List.nodup_cons.mpr ⟨fresh, distinct⟩)
  | @inside kind inner first second key value other below alters ih =>
    obtain ⟨distinct, gathers⟩ := Kind.holds_map.mp holds
    obtain ⟨⟨content, rfl⟩, ⟨_, rfl⟩⟩ := alters.maps
    refine Kind.holds_map.mpr ⟨keys_replace first second key _ _ ▸ distinct, gathers.replace fun effect => ?_⟩
    exact Kind.sets_inside below ih
  | @item kind inner first second key before after value other below alters ih =>
    obtain ⟨distinct, gathers⟩ := Kind.holds_map.mp holds
    refine Kind.holds_map.mpr ⟨keys_replace first second key _ _ ▸ distinct, gathers.replace fun effect => ?_⟩
    exact Kind.sets_item below ih

/-- So does any number of them. -/
theorem Kind.holds_of_alterations {kind : Kind} {d other : Doc}
    (alterations : Relation.ReflTransGen (Alters kind) d other)
    {record : kind.format.σ} (holds : kind.Holds d record) : kind.Holds other record := by
  induction alterations with
  | refl => exact holds
  | tail _ alters ih => exact alters.holds record ih

/-! ## Keys that are there twice -/

section Readers

variable {ε : Type} {codec : Msgpack ε} {Text : String → Prop} (lawful : codec.Lawful Text)

/-- The reader of a map. -/
def Kind.decoder (codec : Msgpack ε) (kind : Kind) : Read ε kind.format.σ :=
  forEachField codec (kind.field codec) kind.format.empty

include lawful

theorem Kind.reads_field (kind : Kind) {key : String} {d : Doc} {effect : kind.format.σ → kind.format.σ}
    (sets : kind.format.fields.sets key d effect) (fits : d.Fits Text) (record : kind.format.σ) :
    Reads (kind.field codec record key) (codec.octets d.tokens) (.ok (effect record)) := by
  cases kind with
  | request => exact RequestParts.reads_field lawful sets fits record
  | reply => exact ReplyParts.reads_field lawful sets fits record
  | scope => exact DnsScope.reads_field lawful sets fits record
  | interface => exact InterfaceStatus.reads_field lawful sets fits record
  | lease => exact LeaseStatus.reads_field lawful sets fits record

theorem Kind.reads {kind : Kind} {d : Doc} {record : kind.format.σ} (holds : kind.Holds d record) (fits : d.Fits Text) :
    Reads (kind.decoder codec) (codec.octets d.tokens) (.ok record) :=
  Doc.Holds.reads lawful (kind.reads_field lawful) holds fits

/-- A field fails where the map that it holds does. -/
theorem Kind.fails_inside {kind inner : Kind} {key : String} {content other : List (String × Doc)}
    {effect : kind.format.σ → kind.format.σ} {e : WireError ε} (below : kind.below key = some inner)
    (sets : kind.format.fields.sets key (.map content) effect) (fits : (Doc.map other).Fits Text)
    (fails : ∀ found, inner.Holds (.map content) found →
      Reads (inner.decoder codec) (codec.octets (Doc.map other).tokens) (.error e)) (record : kind.format.σ) :
    Reads (kind.field codec record key) (codec.octets (Doc.map other).tokens) (.error e) := by
  obtain ⟨rfl, rfl, rfl⟩ | ⟨rfl, rfl, rfl⟩ | ⟨rfl, rfl, rfl⟩ := Kind.below_cases below
  · obtain ⟨_, _, array, _⟩ := ReplyParts.sets_scopes sets rfl
    cases array
  · obtain ⟨_, _, array, _⟩ := ReplyParts.sets_interfaces sets rfl
    cases array
  · obtain none | ⟨l, holds, _⟩ := InterfaceStatus.sets_lease sets rfl
    · cases none
    · exact (reads_readLease lawful fits (fails l holds) record.lease).bind_error

theorem Kind.fails_item {kind inner : Kind} {key : String} {before after : List Doc} {value other : Doc}
    {effect : kind.format.σ → kind.format.σ} {e : WireError ε} (below : kind.below key = some inner)
    (sets : kind.format.fields.sets key (.array (before ++ value :: after)) effect)
    (fits : (Doc.array (before ++ other :: after)).Fits Text)
    (fails : ∀ found, inner.Holds value found → Reads (inner.decoder codec) (codec.octets other.tokens) (.error e))
    (record : kind.format.σ) :
    Reads (kind.field codec record key) (codec.octets (Doc.array (before ++ other :: after)).tokens) (.error e) := by
  have earlier : Doc.ItemsFit Text before := (Doc.itemsFit_append.mp fits.2).1
  obtain ⟨rfl, rfl, rfl⟩ | ⟨rfl, rfl, rfl⟩ | ⟨rfl, rfl, rfl⟩ := Kind.below_cases below
  · obtain ⟨items, scopes, array, each, _⟩ := ReplyParts.sets_scopes sets rfl
    obtain rfl := Doc.array.inj array
    obtain ⟨first, found, related, here⟩ := forall₂_split each
    exact reads_array_error lawful fits.1 (Doc.reads_holds lawful (DnsScope.reads_field lawful) related earlier)
      (fails found here) _
  · obtain ⟨items, interfaces, array, each, _⟩ := ReplyParts.sets_interfaces sets rfl
    obtain rfl := Doc.array.inj array
    obtain ⟨first, found, related, here⟩ := forall₂_split each
    exact reads_array_error lawful fits.1 (Doc.reads_holds lawful (InterfaceStatus.reads_field lawful) related earlier)
      (fails found here) _
  · obtain none | ⟨l, ⟨content, array, _⟩, _⟩ := InterfaceStatus.sets_lease sets rfl
    · cases none
    · cases array

omit lawful in
theorem Repeats.maps {kind : Kind} {again : String} {d other : Doc} (repeats : Repeats kind again d other) :
    (∃ content, d = .map content) ∧ ∃ content, other = .map content := by
  cases repeats <;> exact ⟨⟨_, rfl⟩, _, rfl⟩

/-- A field that fails behind fields that do not. -/
theorem Kind.fails_at {kind : Kind} {first second : List (String × Doc)} {key : String} {value other : Doc}
    {record : kind.format.σ} {e : WireError ε} (holds : kind.Holds (.map (first ++ (key, value) :: second)) record)
    (fits : (Doc.map (first ++ (key, other) :: second)).Fits Text)
    (fails : ∀ effect, kind.format.fields.sets key value effect →
      ∀ middle, Reads (kind.field codec middle key) (codec.octets other.tokens) (.error e)) :
    Reads (kind.decoder codec) (codec.octets (Doc.map (first ++ (key, other) :: second)).tokens) (.error e) := by
  obtain ⟨distinct, gathers⟩ := Kind.holds_map.mp holds
  obtain ⟨middle, before, after⟩ := Fields.Gathers.append_iff.mp gathers
  rw [List.map_append] at distinct
  obtain ⟨apart, _, disjoint⟩ := List.nodup_append.mp distinct
  have fresh : key ∉ first.map Prod.fst := fun member => disjoint key member key List.mem_cons_self rfl
  cases after with
  | cons sets tail =>
    exact reads_forEachField_error lawful (kind.reads_field lawful) before fits apart
      (reads_refused lawful (Doc.fieldsFit_append.mp fits.2).2.1 fresh second (fails _ sets middle))

/-- A key that is there twice is what the reader says, at whatever level it is. -/
theorem Repeats.reads {kind : Kind} {again : String} {d other : Doc} (repeats : Repeats kind again d other)
    {record : kind.format.σ} (holds : kind.Holds d record) (fits : other.Fits Text) :
    Reads (kind.decoder codec) (codec.octets other.tokens) (.error (.duplicate again)) := by
  induction repeats with
  | @here kind first second third key value other =>
    obtain ⟨distinct, gathers⟩ := Kind.holds_map.mp holds
    -- the fields up to the repeated one are read as they were
    have order : first ++ (key, value) :: (second ++ third) = (first ++ (key, value) :: second) ++ third := by
      rw [List.append_assoc, List.cons_append]
    have longer : first ++ (key, value) :: (second ++ (key, other) :: third) =
        (first ++ (key, value) :: second) ++ (key, other) :: third := by
      rw [List.append_assoc, List.cons_append]
    rw [order] at gathers distinct
    rw [longer] at fits ⊢
    obtain ⟨middle, before, _⟩ := Fields.Gathers.append_iff.mp gathers
    rw [List.map_append] at distinct
    have seen : key ∈ (first ++ (key, value) :: second).map Prod.fst := by
      rw [List.map_append, List.map_cons]
      exact List.mem_append_right _ List.mem_cons_self
    exact reads_forEachField_error lawful (kind.reads_field lawful) before fits (List.nodup_append.mp distinct).1
      (reads_duplicate lawful (Doc.fieldsFit_append.mp fits.2).2.1 seen other third)
  | @inside kind inner first second key again value other below repeats ih =>
    obtain ⟨⟨content, rfl⟩, ⟨changed, rfl⟩⟩ := repeats.maps
    apply Kind.fails_at lawful holds fits
    intro effect sets middle
    have inFits : (Doc.map changed).Fits Text := (Doc.fieldsFit_append.mp fits.2).2.2.1
    exact Kind.fails_inside lawful below sets inFits (fun found here => ih here inFits) middle
  | @item kind inner first second key again before after value other below repeats ih =>
    apply Kind.fails_at lawful holds fits
    intro effect sets middle
    have inFits : (Doc.array (before ++ other :: after)).Fits Text := (Doc.fieldsFit_append.mp fits.2).2.2.1
    exact Kind.fails_item lawful below sets inFits
      (fun found here => ih here (Doc.itemsFit_append.mp inFits.2).2.1) middle

end Readers

end Netd.Model.Wire
