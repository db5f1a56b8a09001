import Netd.Math.Fields
import Netd.Model.Wire

/-! # What the wire's readers make of documents

A message is a document: a tree of maps and arrays, written in one pass. The codec is taken at its
word, that a reader reads back what a writer wrote. Readers are described by what they make of the
octets of a document, whatever follows them. Which texts the codec has a form for is left open.
-/

namespace Netd.Model.Wire

/-! ## Documents -/

/-- What a message looks like before it is octets. -/
inductive Doc where
  | str (text : String)
  | uint (value : U64)
  | bool (value : Bool)
  | nil
  | array (items : List Doc)
  | map (fields : List (String × Doc))

namespace Doc

mutual

/-- The calls that write a document. -/
def tokens : Doc → List Token
  | str text => [.str text]
  | uint value => [.uint value]
  | bool value => [.bool value]
  | nil => [.nil]
  | array items => .array (count items) :: itemTokens items
  | map fields => .map (count fields) :: fieldTokens fields

def itemTokens : List Doc → List Token
  | [] => []
  | item :: rest => item.tokens ++ itemTokens rest

def fieldTokens : List (String × Doc) → List Token
  | [] => []
  | (key, value) :: rest => .str key :: (value.tokens ++ fieldTokens rest)

end

section Fits

variable (Text : String → Prop)

mutual

/-- Every length is one that a header can hold, and every text is one of these. -/
def Fits : Doc → Prop
  | str text => Text text
  | uint _ | bool _ | nil => True
  | array items => items.length < 2 ^ 32 ∧ ItemsFit items
  | map fields => fields.length < 2 ^ 32 ∧ FieldsFit fields

def ItemsFit : List Doc → Prop
  | [] => True
  | item :: rest => item.Fits ∧ ItemsFit rest

def FieldsFit : List (String × Doc) → Prop
  | [] => True
  | (key, value) :: rest => Text key ∧ value.Fits ∧ FieldsFit rest

end

end Fits

theorem fieldTokens_append (first second : List (String × Doc)) :
    fieldTokens (first ++ second) = fieldTokens first ++ fieldTokens second := by
  induction first with
  | nil => rfl
  | cons field rest ih => rw [List.cons_append, fieldTokens, fieldTokens, ih, List.cons_append, List.append_assoc]

theorem itemTokens_append (first second : List Doc) :
    itemTokens (first ++ second) = itemTokens first ++ itemTokens second := by
  induction first with
  | nil => rfl
  | cons item rest ih => rw [List.cons_append, itemTokens, itemTokens, ih, List.append_assoc]

variable {Text : String → Prop}

theorem fieldsFit_append {first second : List (String × Doc)} :
    FieldsFit Text (first ++ second) ↔ FieldsFit Text first ∧ FieldsFit Text second := by
  induction first with
  | nil => simp [FieldsFit]
  | cons field rest ih => rw [List.cons_append, FieldsFit, FieldsFit, ih, and_assoc, and_assoc]

theorem itemsFit_append {first second : List Doc} :
    ItemsFit Text (first ++ second) ↔ ItemsFit Text first ∧ ItemsFit Text second := by
  induction first with
  | nil => simp [ItemsFit]
  | cons item rest ih => rw [List.cons_append, ItemsFit, ItemsFit, ih, and_assoc]

end Doc

/-- A text whose length a header can hold. -/
def Spelt (text : String) : Prop := text.utf8ByteSize < 2 ^ 32

/-- A text, if it is one, is one of these. -/
def Token.Spells (Text : String → Prop) : Token → Prop
  | str text => Text text
  | map _ | array _ | uint _ | bool _ | nil => True

section Spelling

variable {Text : String → Prop}

mutual

/-- What can be counted fits if its texts do. -/
theorem Doc.fits_of_spells : ∀ {d : Doc}, (d.Fits fun _ => True) → (∀ token ∈ d.tokens, token.Spells Text) → d.Fits Text
  | .str _, _, spells => spells _ List.mem_cons_self
  | .uint _, _, _ | .bool _, _, _ | .nil, _, _ => trivial
  | .array _, fits, spells => ⟨fits.1, Doc.itemsFit_of_spells fits.2 fun token member => spells token (.tail _ member)⟩
  | .map _, fits, spells => ⟨fits.1, Doc.fieldsFit_of_spells fits.2 fun token member => spells token (.tail _ member)⟩

theorem Doc.itemsFit_of_spells : ∀ {items : List Doc}, (Doc.ItemsFit (fun _ => True) items) →
    (∀ token ∈ Doc.itemTokens items, token.Spells Text) → Doc.ItemsFit Text items
  | [], _, _ => trivial
  | _ :: _, fits, spells =>
    ⟨Doc.fits_of_spells fits.1 fun token member => spells token (List.mem_append_left _ member),
      Doc.itemsFit_of_spells fits.2 fun token member => spells token (List.mem_append_right _ member)⟩

theorem Doc.fieldsFit_of_spells : ∀ {fields : List (String × Doc)}, (Doc.FieldsFit (fun _ => True) fields) →
    (∀ token ∈ Doc.fieldTokens fields, token.Spells Text) → Doc.FieldsFit Text fields
  | [], _, _ => trivial
  | (_, _) :: _, fits, spells =>
    ⟨spells _ List.mem_cons_self,
      Doc.fits_of_spells fits.2.1 fun token member => spells token (.tail _ (List.mem_append_left _ member)),
      Doc.fieldsFit_of_spells fits.2.2 fun token member => spells token (.tail _ (List.mem_append_right _ member))⟩

end

mutual

theorem Doc.Fits.spells : ∀ {d : Doc}, d.Fits Text → ∀ token ∈ d.tokens, token.Spells Text
  | .str _, fits, _, member => by
    rw [List.mem_singleton.mp member]
    exact fits
  | .uint _, _, _, member | .bool _, _, _, member | .nil, _, _, member => by
    rw [List.mem_singleton.mp member]
    trivial
  | .array _, fits, token, member => by
    obtain rfl | later := List.mem_cons.mp member
    · trivial
    · exact Doc.itemsFit_spells fits.2 token later
  | .map _, fits, token, member => by
    obtain rfl | later := List.mem_cons.mp member
    · trivial
    · exact Doc.fieldsFit_spells fits.2 token later

theorem Doc.itemsFit_spells : ∀ {items : List Doc}, Doc.ItemsFit Text items →
    ∀ token ∈ Doc.itemTokens items, token.Spells Text
  | [], _, _, member => nomatch member
  | _ :: _, fits, token, member => by
    obtain here | later := List.mem_append.mp member
    · exact fits.1.spells token here
    · exact Doc.itemsFit_spells fits.2 token later

theorem Doc.fieldsFit_spells : ∀ {fields : List (String × Doc)}, Doc.FieldsFit Text fields →
    ∀ token ∈ Doc.fieldTokens fields, token.Spells Text
  | [], _, _, member => nomatch member
  | (_, _) :: _, fits, token, member => by
    obtain rfl | inside := List.mem_cons.mp member
    · exact fits.1
    · obtain here | later := List.mem_append.mp inside
      · exact fits.2.1.spells token here
      · exact Doc.fieldsFit_spells fits.2.2 token later

end

end Spelling

/-! ## The codec at its word -/

namespace Msgpack

variable {ε : Type} (codec : Msgpack ε)

/-- The octets of some calls of the writer. -/
def octets (tokens : List Token) : Bytes := tokens.flatMap codec.write

/-- A reader reads back what the writer wrote, and skips a whole document; a writer hands over a whole
document as it was written. All of it as far as texts are of the kind that the codec has a form for. -/
structure Lawful (Text : String → Prop) : Prop where
  toBytes : ∀ {d : Doc}, d.Fits Text → codec.toBytes d.tokens = some (codec.octets d.tokens)
  readMap : ∀ count rest, codec.readMap (codec.write (.map count) ++ rest) = .ok (count.toNat, rest)
  readArray : ∀ count rest, codec.readArray (codec.write (.array count) ++ rest) = .ok (count.toNat, rest)
  readStr : ∀ {text}, Text text → ∀ rest, codec.readStr (codec.write (.str text) ++ rest) = .ok (text, rest)
  readUint : ∀ value rest, codec.readUint (codec.write (.uint value) ++ rest) = .ok (value, rest)
  readBool : ∀ value rest, codec.readBool (codec.write (.bool value) ++ rest) = .ok (value, rest)
  readNil : ∀ rest, codec.readNil (codec.write .nil ++ rest) = .ok ((), rest)
  skip : ∀ {d : Doc}, d.Fits Text → ∀ rest, codec.skip (codec.octets d.tokens ++ rest) = .ok ((), rest)
  peekNil : ∀ {token : Token}, token.Spells Text → ∀ rest,
    codec.peekNil (codec.write token ++ rest) = decide (token = .nil)
  write_ne_nil : ∀ {token : Token}, token.Spells Text → codec.write token ≠ []

theorem octets_cons (token : Token) (rest : List Token) :
    codec.octets (token :: rest) = codec.write token ++ codec.octets rest := rfl

theorem octets_append (first second : List Token) :
    codec.octets (first ++ second) = codec.octets first ++ codec.octets second := List.flatMap_append

theorem octets_singleton (token : Token) : codec.octets [token] = codec.write token := List.append_nil _

end Msgpack

/-! ## Readers -/

section Readers

variable {ε α β : Type}

/-- What a reader makes of octets, whatever follows them. -/
def Reads (reader : Read ε α) (octets : Bytes) (result : Except (WireError ε) α) : Prop :=
  ∀ rest, reader (octets ++ rest) = result.map fun value => (value, rest)

namespace Reads

variable {reader : Read ε α} {next : α → Read ε β} {first second : Bytes}

theorem pure (value : α) : Reads (Pure.pure value : Read ε α) [] (.ok value) := fun _ => rfl

theorem bind {value : α} {result : Except (WireError ε) β} (reads : Reads reader first (.ok value))
    (after : Reads (next value) second result) : Reads (reader >>= next) (first ++ second) result := by
  intro rest
  have step : (reader >>= next) (first ++ second ++ rest) =
      (reader (first ++ (second ++ rest)) >>= fun read => next read.1 read.2) := by
    rw [List.append_assoc]
    rfl
  rw [step, reads]
  exact after rest

theorem bind_error {e : WireError ε} (fails : Reads reader first (.error e)) :
    Reads (reader >>= next) first (.error e) := by
  intro rest
  have step : (reader >>= next) (first ++ rest) =
      (reader (first ++ rest) >>= fun read => next read.1 read.2) := rfl
  rw [step, fails]
  rfl

/-- A refusal does not depend on what follows. -/
theorem error_append {e : WireError ε} (fails : Reads reader first (.error e)) (more : Bytes) :
    Reads reader (first ++ more) (.error e) := by
  intro rest
  rw [List.append_assoc]
  exact fails (more ++ rest)

/-- The last of several readers. -/
theorem map {value : α} (reads : Reads reader first (.ok value)) (f : α → β) :
    Reads (do return f (← reader)) first (.ok (f value)) := by
  have both : Reads (reader >>= fun read => Pure.pure (f read)) (first ++ []) (.ok (f value)) :=
    reads.bind (.pure (f value))
  rwa [List.append_nil] at both

/-- A reader that looks at what is left before it reads. -/
theorem look {reader : Bytes → Read ε α} {octets : Bytes} {result : Except (WireError ε) α}
    (reads : ∀ rest, reader (octets ++ rest) (octets ++ rest) = result.map fun value => (value, rest)) :
    Reads (get >>= reader) octets result := reads

end Reads

variable {codec : Msgpack ε} {Text : String → Prop} (lawful : codec.Lawful Text)

theorem reads_call {f : Bytes → Except ε (α × Bytes)} {octets : Bytes} {value : α}
    (law : ∀ rest, f (octets ++ rest) = .ok (value, rest)) : Reads (call f) octets (.ok value) := by
  intro rest
  rw [call, law rest]
  rfl

/-- `for _ in 0..n`, over as many documents. -/
theorem reads_repeated {round : Read ε α} {items : List Doc} {values : List α} {result : Except (WireError ε) (List α)}
    {more : ℕ} {octets : Bytes}
    (each : List.Forall₂ (fun item value => Reads round (codec.octets item.tokens) (.ok value)) items values)
    (after : Reads (repeated round more) octets result) :
    Reads (repeated round (items.length + more)) (codec.octets (Doc.itemTokens items) ++ octets)
      (result.map fun rest => values ++ rest) := by
  induction each with
  | nil =>
    rw [List.length_nil, Nat.zero_add]
    cases result <;> exact after
  | @cons item value items values reads each ih =>
    rw [List.length_cons, Nat.add_right_comm, repeated, Doc.itemTokens, codec.octets_append, List.append_assoc]
    apply reads.bind
    cases result with
    | ok rest => exact Reads.map ih (value :: ·)
    | error e => exact Reads.bind_error ih

theorem reads_repeated_all {round : Read ε α} {items : List Doc} {values : List α}
    (each : List.Forall₂ (fun item value => Reads round (codec.octets item.tokens) (.ok value)) items values) :
    Reads (repeated round items.length) (codec.octets (Doc.itemTokens items)) (.ok values) := by
  have none : Reads (repeated round 0) [] (.ok []) := .pure []
  have reads := reads_repeated each none
  rwa [Nat.add_zero, List.append_nil, Except.map, List.append_nil] at reads

/-! ## Values -/

theorem count_toNat {items : List α} (fits : items.length < 2 ^ 32) : (count items).toNat = items.length := by
  rw [count, BitVec.toNat_ofNat, Nat.mod_eq_of_lt fits]

include lawful

theorem reads_str {text : String} (fits : (Doc.str text).Fits Text) :
    Reads (call codec.readStr) (codec.octets (Doc.str text).tokens) (.ok text) := by
  rw [Doc.tokens, codec.octets_singleton]
  exact reads_call (lawful.readStr fits)

theorem reads_uint (value : U64) :
    Reads (call codec.readUint) (codec.octets (Doc.uint value).tokens) (.ok value) := by
  rw [Doc.tokens, codec.octets_singleton]
  exact reads_call (lawful.readUint value)

theorem reads_bool (value : Bool) :
    Reads (call codec.readBool) (codec.octets (Doc.bool value).tokens) (.ok value) := by
  rw [Doc.tokens, codec.octets_singleton]
  exact reads_call (lawful.readBool value)

theorem reads_nil : Reads (call codec.readNil) (codec.octets Doc.nil.tokens) (.ok ()) := by
  rw [Doc.tokens, codec.octets_singleton]
  exact reads_call lawful.readNil

theorem reads_skip {d : Doc} (fits : d.Fits Text) : Reads (call codec.skip) (codec.octets d.tokens) (.ok ()) :=
  reads_call (lawful.skip fits)

theorem reads_u32 (value : U64) :
    Reads (readU32 codec) (codec.octets (Doc.uint value).tokens) (.ok (value.setWidth 32)) :=
  (reads_uint lawful value).map _

theorem reads_level {text : String} (fits : (Doc.str text).Fits Text) :
    Reads (readLevel codec) (codec.octets (Doc.str text).tokens) (.ok ((Level.parse text).getD .absent)) :=
  (reads_str lawful fits).map _

/-- Whether a document is nil shows in its first octets. -/
theorem peekNil_tokens {d : Doc} (fits : d.Fits Text) (rest : Bytes) :
    codec.peekNil (codec.octets d.tokens ++ rest) = decide (d.tokens.head? = some .nil) := by
  have spells := fits.spells
  cases tokens : d.tokens with
  | nil => cases d <;> cases tokens
  | cons token more =>
    rw [tokens] at spells
    rw [codec.octets_cons, List.append_assoc, lawful.peekNil (spells token List.mem_cons_self), List.head?_cons]
    exact decide_eq_decide.mpr (Option.some_inj).symm

/-- An optional text, as a document. -/
def Doc.optStr : Option String → Doc
  | some text => .str text
  | none => .nil

theorem reads_optStr {value : Option String} (fits : (Doc.optStr value).Fits Text) :
    Reads (readOptStr codec) (codec.octets (Doc.optStr value).tokens) (.ok value) := by
  apply Reads.look
  intro rest
  rw [peekNil_tokens lawful fits]
  cases value with
  | none => exact (reads_nil lawful).map (fun _ => none) rest
  | some text => exact (reads_str lawful fits).map some rest

theorem length_le_octets {items : List Doc} (fits : Doc.ItemsFit Text items) :
    items.length ≤ (codec.octets (Doc.itemTokens items)).length := by
  induction items with
  | nil => exact Nat.zero_le _
  | cons item rest ih =>
    have some : 0 < (codec.octets item.tokens).length := by
      have spells := fits.1.spells
      cases tokens : item.tokens with
      | nil => cases item <;> cases tokens
      | cons token more =>
        rw [tokens] at spells
        have nonempty := List.length_pos_iff.mpr (lawful.write_ne_nil (spells token List.mem_cons_self))
        rw [codec.octets_cons, List.length_append]
        omega
    have others := ih fits.2
    rw [Doc.itemTokens, codec.octets_append, List.length_append, List.length_cons]
    omega

omit lawful in
theorem itemsFit_strs {texts : List String} : Doc.ItemsFit Text (texts.map .str) ↔ ∀ text ∈ texts, Text text := by
  induction texts with
  | nil => simp [Doc.ItemsFit]
  | cons text rest ih => rw [List.map_cons, Doc.ItemsFit, ih, List.forall_mem_cons, Doc.Fits]

theorem reads_strList {texts : List String} (fits : (Doc.array (texts.map .str)).Fits Text) :
    Reads (readStrList codec) (codec.octets (Doc.array (texts.map .str)).tokens) (.ok texts) := by
  have length : (texts.map Doc.str).length = texts.length := List.length_map _
  rw [Doc.tokens, codec.octets_cons]
  apply (reads_call (lawful.readArray _)).bind
  rw [count_toNat fits.1, length]
  apply Reads.look
  intro rest
  have room := length_le_octets lawful fits.2
  rw [length] at room
  rw [if_neg (by rw [List.length_append]; omega)]
  have all : List.Forall₂ (fun item value => Reads (call codec.readStr) (codec.octets item.tokens) (.ok value))
      (texts.map Doc.str) texts := by
    rw [List.forall₂_map_left_iff]
    exact List.forall₂_same.mpr fun text member => reads_str lawful (itemsFit_strs.mp fits.2 text member)
  have reads := reads_repeated_all all
  rw [length] at reads
  exact reads rest

/-- An array of documents that are each read alike. -/
theorem reads_array {round : Read ε α} {items : List Doc} {values : List α} (fits : items.length < 2 ^ 32)
    (each : List.Forall₂ (fun item value => Reads round (codec.octets item.tokens) (.ok value)) items values)
    (f : List α → β) :
    Reads (do
      let n ← call codec.readArray
      let values ← repeated round n
      return f values) (codec.octets (Doc.array items).tokens) (.ok (f values)) := by
  rw [Doc.tokens, codec.octets_cons]
  apply (reads_call (lawful.readArray _)).bind
  rw [count_toNat fits]
  exact (reads_repeated_all each).map f

/-- An array is no better than the first of its documents that is refused. -/
theorem reads_array_error {round : Read ε α} {first second : List Doc} {item : Doc} {values : List α}
    {e : WireError ε} (fits : (first ++ item :: second).length < 2 ^ 32)
    (each : List.Forall₂ (fun item value => Reads round (codec.octets item.tokens) (.ok value)) first values)
    (fails : Reads round (codec.octets item.tokens) (.error e)) (f : List α → β) :
    Reads (do
      let n ← call codec.readArray
      let values ← repeated round n
      return f values) (codec.octets (Doc.array (first ++ item :: second)).tokens) (.error e) := by
  have here :
      Reads (repeated round (second.length + 1)) (codec.octets (Doc.itemTokens (item :: second))) (.error e) := by
    rw [repeated, Doc.itemTokens, codec.octets_append]
    exact (fails.bind_error).error_append _
  rw [Doc.tokens, codec.octets_cons]
  apply (reads_call (lawful.readArray _)).bind
  rw [count_toNat fits, List.length_append, List.length_cons, Doc.itemTokens_append, codec.octets_append]
  exact (reads_repeated each here).bind_error

/-! ## Maps -/

section Maps

variable {σ : Type} {fields : Fields String Doc σ} {field : σ → String → Read ε σ}
  (law : ∀ {key d effect}, fields.sets key d effect → d.Fits Text →
    ∀ record, Reads (field record key) (codec.octets d.tokens) (.ok (effect record)))

include law

/-- Fields that are known and have keys of their own are read one after another. -/
theorem reads_fieldsFrom {record middle : σ} {first : List (String × Doc)} {seen : List String} {more : ℕ}
    {octets : Bytes} {result : Except (WireError ε) σ} (gathers : fields.Gathers record first middle)
    (fits : Doc.FieldsFit Text first) (distinct : (seen ++ first.map Prod.fst).Nodup)
    (after : Reads (fieldsFrom codec field more (seen ++ first.map Prod.fst) middle) octets result) :
    Reads (fieldsFrom codec field (first.length + more) seen record)
      (codec.octets (Doc.fieldTokens first) ++ octets) result := by
  induction gathers generalizing seen with
  | nil =>
    rw [List.length_nil, Nat.zero_add]
    rwa [List.map_nil, List.append_nil] at after
  | @cons record result key value effect rest sets tail ih =>
    have keys : seen ++ ((key, value) :: rest).map Prod.fst = (seen ++ [key]) ++ rest.map Prod.fst := by
      rw [List.append_assoc]
      rfl
    have fresh : key ∉ seen := by
      intro member
      rw [List.map_cons] at distinct
      exact (List.nodup_append.mp distinct).2.2 key member key List.mem_cons_self rfl
    rw [keys] at distinct after
    have later := ih fits.2.2 distinct after
    rw [List.length_cons, Nat.add_right_comm, fieldsFrom, Doc.fieldTokens, codec.octets_cons, codec.octets_append,
      List.append_assoc, List.append_assoc]
    apply (reads_call (lawful.readStr fits.1)).bind
    rw [if_neg fresh]
    exact (law sets fits.2.1 record).bind later

theorem reads_forEachField {record result : σ} {content : List (String × Doc)}
    (gathers : fields.Gathers record content result) (fits : (Doc.map content).Fits Text)
    (distinct : (content.map Prod.fst).Nodup) :
    Reads (forEachField codec field record) (codec.octets (Doc.map content).tokens) (.ok result) := by
  have none : Reads (fieldsFrom codec field 0 ([] ++ content.map Prod.fst) result) [] (.ok result) := .pure result
  have reads := reads_fieldsFrom lawful law gathers fits.2 distinct none
  rw [List.append_nil, Nat.add_zero] at reads
  rw [Doc.tokens, codec.octets_cons]
  apply (reads_call (lawful.readMap _)).bind
  rwa [count_toNat fits.1]

/-- A map fails where what is behind the first of its fields does. -/
theorem reads_forEachField_error {record middle : σ} {first second : List (String × Doc)} {e : WireError ε}
    (gathers : fields.Gathers record first middle) (fits : (Doc.map (first ++ second)).Fits Text)
    (distinct : (first.map Prod.fst).Nodup)
    (fails : Reads (fieldsFrom codec field second.length (first.map Prod.fst) middle)
      (codec.octets (Doc.fieldTokens second)) (.error e)) :
    Reads (forEachField codec field record) (codec.octets (Doc.map (first ++ second)).tokens) (.error e) := by
  have reads := reads_fieldsFrom lawful law gathers (Doc.fieldsFit_append.mp fits.2).1 distinct
    (show Reads (fieldsFrom codec field second.length ([] ++ first.map Prod.fst) middle) _ _ from fails)
  rw [Doc.tokens, codec.octets_cons]
  apply (reads_call (lawful.readMap _)).bind
  rwa [count_toNat fits.1, List.length_append, Doc.fieldTokens_append, codec.octets_append]

omit law in
/-- A key that was seen is refused, whatever its value. -/
theorem reads_duplicate {record : σ} {seen : List String} {key : String} (text : Text key) (member : key ∈ seen)
    (value : Doc) (rest : List (String × Doc)) :
    Reads (fieldsFrom codec field ((key, value) :: rest).length seen record)
      (codec.octets (Doc.fieldTokens ((key, value) :: rest))) (.error (.duplicate key)) := by
  rw [List.length_cons, fieldsFrom, Doc.fieldTokens, codec.octets_cons]
  apply (reads_call (lawful.readStr text)).bind
  rw [if_pos member]
  exact fun _ => rfl

omit law in
/-- A value that is refused. -/
theorem reads_refused {record : σ} {seen : List String} {key : String} {value : Doc} {e : WireError ε}
    (text : Text key) (fresh : key ∉ seen) (rest : List (String × Doc))
    (fails : Reads (field record key) (codec.octets value.tokens) (.error e)) :
    Reads (fieldsFrom codec field ((key, value) :: rest).length seen record)
      (codec.octets (Doc.fieldTokens ((key, value) :: rest))) (.error e) := by
  rw [List.length_cons, fieldsFrom, Doc.fieldTokens, codec.octets_cons, codec.octets_append]
  apply (reads_call (lawful.readStr text)).bind
  rw [if_neg fresh]
  exact (fails.bind_error).error_append _

end Maps

end Readers

end Netd.Model.Wire
