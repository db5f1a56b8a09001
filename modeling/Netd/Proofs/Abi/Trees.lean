import Mathlib.Algebra.Order.BigOperators.Group.List
import Mathlib.Algebra.Order.Monoid.Prod
import Netd.Model.Abi.Trees
import Netd.Proofs.Text.Utf8

/-! # Configuration trees cross the C boundary

Both walks cost what the tree they walk has in it, one item for each key, value and list item, and both
go down as many levels. So each of them gets through exactly where the other does, and what the
library reads out of a layout is what the client laid out.
-/

namespace Netd.Model

/-! ## What a tree has in it -/

namespace RawValue

def listItems : RawValue → ℕ
  | .list items => items.length
  | .int _ | .str _ | .other => 0

def textBytes : RawValue → ℕ
  | .str text => text.utf8ByteSize
  | .list items => (items.map String.utf8ByteSize).sum
  | .int _ | .other => 0

end RawValue

namespace RawKey

mutual

/-- A sum over a key and everything under it. -/
def total (own : RawKey → ℕ) : RawKey → ℕ
  | ⟨name, values, children⟩ => own ⟨name, values, children⟩ + totals own children

def totals (own : RawKey → ℕ) : List RawKey → ℕ
  | [] => 0
  | child :: rest => total own child + totals own rest

end

theorem totals_eq (own : RawKey → ℕ) (keys : List RawKey) : totals own keys = (keys.map (total own)).sum := by
  induction keys with
  | nil => rfl
  | cons key rest ih => rw [totals, ih, List.map_cons, List.sum_cons]

theorem total_eq (own : RawKey → ℕ) (key : RawKey) :
    key.total own = own key + (key.children.map (total own)).sum := by
  cases key with
  | mk name values children => rw [total, totals_eq]

/-- The key itself, its values and the items of its lists. -/
def ownItems (key : RawKey) : ℕ := 1 + key.values.length + (key.values.map fun entry => entry.2.listItems).sum

def ownText (key : RawKey) : ℕ :=
  key.name.utf8ByteSize + (key.values.map fun entry => entry.1.utf8ByteSize + entry.2.textBytes).sum

/-- Keys, values and list items. -/
def items : RawKey → ℕ := total ownItems

def textBytes : RawKey → ℕ := total ownText

theorem items_eq (key : RawKey) :
    key.items = 1 + key.values.length + (key.values.map fun entry => entry.2.listItems).sum +
      (key.children.map items).sum := total_eq ownItems key

theorem textBytes_eq (key : RawKey) :
    key.textBytes = key.name.utf8ByteSize +
      (key.values.map fun entry => entry.1.utf8ByteSize + entry.2.textBytes).sum +
        (key.children.map textBytes).sum := total_eq ownText key

theorem items_pos (key : RawKey) : 1 ≤ key.items := by
  rw [items_eq]
  omega

/-- Every child is an item itself. -/
theorem children_le_items (key : RawKey) : key.children.length ≤ (key.children.map items).sum := by
  rw [← List.length_map (f := items)]
  apply List.length_le_sum_of_one_le _
  intro count member
  obtain ⟨child, _, rfl⟩ := List.mem_map.mp member
  exact child.items_pos

theorem name_le_textBytes (key : RawKey) : key.name.utf8ByteSize ≤ key.textBytes := by
  rw [textBytes_eq]
  omega

theorem entry_le_textBytes {key : RawKey} {entry : String × RawValue} (member : entry ∈ key.values) :
    entry.1.utf8ByteSize + entry.2.textBytes ≤ key.textBytes := by
  have within := List.single_le_sum (fun _ _ => Nat.zero_le _) _
    (List.mem_map_of_mem (f := fun entry : String × RawValue => entry.1.utf8ByteSize + entry.2.textBytes) member)
  rw [textBytes_eq]
  omega

theorem child_le_textBytes {key child : RawKey} (member : child ∈ key.children) :
    child.textBytes ≤ key.textBytes := by
  have within := List.single_le_sum (fun _ _ => Nat.zero_le _) _ (List.mem_map_of_mem (f := textBytes) member)
  rw [textBytes_eq key]
  omega

mutual

/-- How many levels there are. -/
def depth : RawKey → ℕ
  | ⟨_, _, children⟩ => 1 + depths children

def depths : List RawKey → ℕ
  | [] => 0
  | child :: rest => max (depth child) (depths rest)

end

theorem depths_le_iff {keys : List RawKey} {levels : ℕ} : depths keys ≤ levels ↔ ∀ key ∈ keys, key.depth ≤ levels := by
  induction keys with
  | nil => simp [depths]
  | cons key rest ih => rw [depths, max_le_iff, ih, List.forall_mem_cons]

theorem depth_le_iff {key : RawKey} {levels : ℕ} :
    key.depth ≤ levels + 1 ↔ ∀ child ∈ key.children, child.depth ≤ levels := by
  cases key with
  | mk name values children =>
    rw [depth, Nat.add_comm, Nat.add_le_add_iff_right]
    exact depths_le_iff

theorem depth_pos (key : RawKey) : 0 < key.depth := by
  cases key with
  | mk name values children =>
    rw [depth]
    omega

end RawKey

namespace Abi

/-! ## What a layout stands for -/

/-- The items an array stands for; an array of none may be null. -/
structure Reads {α : Type} (pointer : Option (List α)) (count : U64) (items : List α) : Prop where
  length : count.toNat = items.length
  there : items ≠ [] → ∃ more, pointer = some (items ++ more)

def Bytes.Holds (value : Bytes) (text : String) : Prop := Reads value.data value.len (asBytes text)

def Strings.Holds (value : Strings) (texts : List String) : Prop :=
  ∃ spans, Reads value.data value.len spans ∧ List.Forall₂ Bytes.Holds spans texts

/-- What a value stands for, by its kind. -/
inductive Value.Stands (value : Value) : RawValue → Prop
  | other (kind : value.kind.toNat = 0) : Stands value .other
  | int (kind : value.kind.toNat = 1) : Stands value (.int value.integer)
  | str {text : String} (kind : value.kind.toNat = 2) (holds : value.text.Holds text) : Stands value (.str text)
  | list {texts : List String} (kind : value.kind.toNat = 3) (holds : value.list.Holds texts) :
    Stands value (.list texts)

def Value.Represents (value : Value) (entry : String × RawValue) : Prop :=
  value.name.Holds entry.1 ∧ value.Stands entry.2

/-- A layout of a key and everything under it. -/
inductive Key.Represents : Key → RawKey → Prop
  | mk {key : Key} {raw : RawKey} {values : List Value} {children : List Key} (name : key.name.Holds raw.name)
      (readValues : Reads key.values key.valueCount values)
      (values : List.Forall₂ Value.Represents values raw.values)
      (readChildren : Reads key.children key.childCount children)
      (children : List.Forall₂ Key.Represents children raw.children) : Key.Represents key raw

/-- Null stands for no tree at all. -/
def Represents : Option Key → Option RawKey → Prop
  | none, none => True
  | some key, some raw => key.Represents raw
  | _, _ => False

/-- Failures that are answers: none of the code's own expectations is among them. -/
def Fault.Tame : Fault → Prop
  | .refused _ | .unreadable => True
  | .overflow | .panicked _ => False

theorem reads_some {α : Type} {items : List α} (small : items.length < 2 ^ 64) :
    Reads (some items) (len items) items where
  length := by rw [len, BitVec.toNat_ofNat, Nat.mod_eq_of_lt small]
  there _ := ⟨[], by rw [List.append_nil]⟩

theorem span_holds {text : String} (small : text.utf8ByteSize < 2 ^ 64) : (span (asBytes text)).Holds text := by
  apply reads_some
  rwa [length_asBytes]

/-- What is read from an array that stands for some items. -/
theorem array_of_reads {α : Type} {size : ℕ} {pointer : Option (List α)} {count : U64} {items : List α}
    (reads : Reads pointer count items) (small : items.length ≤ (2 ^ 63 - 1) / max size 1) :
    array size pointer count = .ok items := by
  have length := reads.length
  rw [array]
  cases items with
  | nil =>
    have zero : count = 0 := BitVec.eq_of_toNat_eq length
    rw [if_pos zero]
  | cons first rest =>
    obtain ⟨more, rfl⟩ := reads.there (List.cons_ne_nil first rest)
    have some : count ≠ 0 := by
      rintro rfl
      exact absurd length (by simp)
    have fine : ¬((Option.some (first :: rest ++ more)).isNone ∨ count.toNat > (2 ^ 63 - 1) / max size 1) := by
      rw [length]
      simpa using small
    have enough : count.toNat ≤ (first :: rest ++ more).length := by
      rw [length, List.length_append]
      exact Nat.le_add_right _ _
    rw [if_neg some, if_neg fine, fromRawParts, if_pos enough, length, List.take_left]

/-- However reading an array ends: with an answer, or with as many items as were asked for. -/
theorem array_cases {α : Type} (size : ℕ) (pointer : Option (List α)) (count : U64) :
    (∃ e, array size pointer count = .error e ∧ e.Tame) ∨
      ∃ items, array size pointer count = .ok items ∧ items.length = count.toNat ∧
        (items = [] ∨ items.length ≤ (2 ^ 63 - 1) / max size 1) := by
  rw [array]
  by_cases zero : count = 0
  · subst zero
    exact .inr ⟨[], if_pos rfl, rfl, .inl rfl⟩
  rw [if_neg zero]
  split_ifs with bad
  · exact .inl ⟨_, rfl, trivial⟩
  obtain ⟨_, small⟩ := not_or.mp bad
  cases pointer with
  | none => exact .inl ⟨_, rfl, trivial⟩
  | some items =>
    rw [fromRawParts]
    split_ifs with enough
    · have length : (items.take count.toNat).length = count.toNat := by
        rw [List.length_take, Nat.min_eq_left enough]
      refine .inr ⟨_, rfl, length, .inr ?_⟩
      rw [length]
      exact Nat.not_lt.mp small
    · exact .inl ⟨_, rfl, trivial⟩

/-- What is read from an array is what it stands for, if it stands for anything. -/
theorem array_unique {α : Type} {size : ℕ} {pointer : Option (List α)} {count : U64} {out items : List α}
    (read : array size pointer count = .ok out) (reads : Reads pointer count items) : out = items := by
  obtain ⟨e, failed, _⟩ | ⟨found, same, length, small⟩ := array_cases size pointer count
  · rw [failed] at read
    contradiction
  · obtain rfl := Except.ok.inj (same.symm.trans read)
    have long : items.length = found.length := reads.length.symm.trans length.symm
    obtain rfl | bounded := small
    · exact (List.eq_nil_of_length_eq_zero long).symm
    · exact Except.ok.inj (same.symm.trans (array_of_reads reads (long ▸ bounded)))

theorem checkUtf8_asBytes (text : String) : checkUtf8 (asBytes text) = .ok text := by
  rw [checkUtf8, fromUtf8_asBytes]

theorem text_of_holds {value : Bytes} {text : String} (holds : value.Holds text)
    (small : text.utf8ByteSize ≤ maxTextBytes) : Abi.text value = .ok text := by
  have length : value.len.toNat = text.utf8ByteSize := holds.length.trans (length_asBytes text)
  have within : ¬value.len.toNat > maxTextBytes := by
    rw [length]
    exact Nat.not_lt.mpr small
  have octets : bytes value = .ok (asBytes text) := by
    rw [bytes, if_neg within]
    apply array_of_reads holds
    rw [length_asBytes]
    exact small.trans (by decide)
  rw [Abi.text, octets]
  exact checkUtf8_asBytes text

/-- However reading a text ends. -/
theorem text_cases (value : Bytes) :
    (∃ e, Abi.text value = .error e ∧ e.Tame) ∨
      ∃ text, Abi.text value = .ok text ∧ ∀ other, value.Holds other → text = other := by
  by_cases large : value.len.toNat > maxTextBytes
  · refine .inl ⟨invalid "input span exceeds 4 MiB", ?_, trivial⟩
    rw [Abi.text, bytes, if_pos large]
    rfl
  have octets : bytes value = array 1 value.data value.len := if_neg large
  rw [Abi.text, octets]
  obtain ⟨e, failed, tame⟩ | ⟨found, read, _, _⟩ := array_cases 1 value.data value.len
  · rw [failed]
    exact .inl ⟨e, rfl, tame⟩
  · rw [read]
    cases decoded : checkUtf8 found with
    | error e =>
      refine .inl ⟨e, decoded, ?_⟩
      rw [checkUtf8] at decoded
      split at decoded
      · contradiction
      · exact Except.error.inj decoded ▸ trivial
    | ok text =>
      refine .inr ⟨text, decoded, fun other holds => ?_⟩
      obtain rfl := array_unique read holds
      exact Except.ok.inj (decoded.symm.trans (checkUtf8_asBytes other))

/-! ## Counters -/

theorem charged_eq {limit : ℕ} (machine : limit < 2 ^ 64) (message : String) (total count : ℕ) :
    charged limit message total count =
      if total + count ≤ limit then .ok (total + count) else .error (invalid message) := by
  have kept : ((checkedAdd total count).filter fun total => total ≤ limit) =
      if total + count ≤ limit then some (total + count) else none := by
    rw [checkedAdd]
    by_cases fits : total + count < 2 ^ 64
    · rw [if_pos fits, Option.filter_some]
      simp only [decide_eq_true_eq]
    · rw [if_neg fits, if_neg (by omega), Option.filter_none]
  rw [charged, kept]
  split_ifs <;> rfl

theorem childRoom_eq {limit total : ℕ} (within : total ≤ limit) (children : ℕ) :
    childRoom limit total children =
      if total + children ≤ limit then .ok () else .error (invalid "too many child keys") := by
  rw [childRoom, if_neg (Nat.not_lt.mpr within)]
  by_cases room : total + children ≤ limit
  · rw [if_neg (by omega), if_pos room]
  · rw [if_pos (by omega), if_neg room]

/-! ## The client's walk -/

namespace Input

theorem count_charges (n : ℕ) :
    (count n).Charges maxItems n () (invalid "configuration exceeds 65536 items") where
  ok spent room := by
    rw [count, charged_eq (by decide), if_pos room]
    rfl
  error spent _ above := by
    rw [count, charged_eq (by decide), if_neg above]
    rfl

theorem room_keeps (n : ℕ) : (room n).Keeps maxItems Fault.Tame fun _ cost => n ≤ maxItems ∧ cost = 0 where
  ok {spent after a} within run := by
    rw [room, childRoom_eq within] at run
    by_cases fits : spent + n ≤ maxItems
    · rw [if_pos fits] at run
      obtain ⟨_, rfl⟩ := Prod.mk.inj (Except.ok.inj run)
      exact ⟨within, 0, rfl, (Nat.le_add_left n spent).trans fits, rfl⟩
    · rw [if_neg fits] at run
      contradiction
  error {spent e} within run := by
    rw [room, childRoom_eq within] at run
    by_cases fits : spent + n ≤ maxItems
    · rw [if_pos fits] at run
      contradiction
    · rw [if_neg fits] at run
      exact Except.error.inj run ▸ trivial

theorem spans_hold {texts : List String} (small : (texts.map String.utf8ByteSize).sum < 2 ^ 64) :
    List.Forall₂ Bytes.Holds (texts.map fun text => span (asBytes text)) texts := by
  rw [List.forall₂_map_left_iff, List.forall₂_same]
  intro text member
  have bounded : text.utf8ByteSize ≤ (texts.map String.utf8ByteSize).sum :=
    List.single_le_sum (fun _ _ => Nat.zero_le _) _ (List.mem_map_of_mem member)
  exact span_holds (bounded.trans_lt small)

theorem value_keeps (entry : String × RawValue) :
    (value entry).Keeps maxItems Fault.Tame fun view cost =>
      cost = entry.2.listItems ∧ (entry.1.utf8ByteSize + entry.2.textBytes < 2 ^ 64 → view.Represents entry) := by
  obtain ⟨name, raw⟩ := entry
  have named {rest : ℕ} (small : name.utf8ByteSize + rest < 2 ^ 64) : (span (asBytes name)).Holds name :=
    span_holds ((Nat.le_add_right _ _).trans_lt small)
  cases raw with
  | other => exact .pure ⟨rfl, fun small => ⟨named small, .other rfl⟩⟩
  | int integer => exact .pure ⟨rfl, fun small => ⟨named small, .int rfl⟩⟩
  | str text =>
    refine .pure ⟨rfl, fun small => ⟨named small, .str rfl (span_holds ?_)⟩⟩
    exact (Nat.le_add_left _ _).trans_lt small
  | list texts =>
    refine ((count_charges texts.length).keeps trivial).bind fun _ cost bounded counted => .pure ?_
    obtain ⟨_, rfl⟩ := counted
    refine ⟨rfl, fun small => ⟨named small, .list rfl ⟨_, reads_some ?_, spans_hold ?_⟩⟩⟩
    · rw [List.length_map]
      exact bounded.trans_lt (by decide)
    · exact (Nat.le_add_left _ _).trans_lt small

theorem value_affords (entry : String × RawValue) :
    (value entry).Affords maxItems entry.2.listItems fun _ => True := by
  obtain ⟨name, raw⟩ := entry
  cases raw with
  | other => exact .pure trivial
  | int integer => exact .pure trivial
  | str text => exact .pure trivial
  | list texts => exact (count_charges texts.length).affords.bind (fun _ _ => .pure trivial) (add_zero _).symm

/-- However the walk over a key ends. -/
theorem key_keeps (levels : ℕ) (k : RawKey) :
    (key levels k).Keeps maxItems Fault.Tame fun view cost =>
      cost = k.items ∧ k.depth ≤ levels ∧ (k.textBytes < 2 ^ 64 → view.Represents k) := by
  induction levels generalizing k with
  | zero => exact .throw trivial
  | succ levels ih =>
    apply ((count_charges 1).keeps trivial).bind
    intro _ one _ first
    apply ((count_charges k.values.length).keeps trivial).bind
    intro _ more few second
    apply (room_keeps k.children.length).bind
    intro _ none _ third
    have values : (k.values.mapM value).Keeps maxItems Fault.Tame (Metered.Each (fun entry view cost =>
        cost = entry.2.listItems ∧ (k.textBytes < 2 ^ 64 → Value.Represents view entry)) k.values) := by
      refine .mapM fun entry member => (value_keeps entry).mono fun view cost each => ⟨each.1, fun small => ?_⟩
      exact each.2 ((RawKey.entry_le_textBytes member).trans_lt small)
    have children : (k.children.mapM (key levels)).Keeps maxItems Fault.Tame (Metered.Each (fun child view cost =>
        cost = child.items ∧ child.depth ≤ levels ∧ (k.textBytes < 2 ^ 64 → Key.Represents view child))
          k.children) := by
      refine .mapM fun child member => (ih child).mono fun view cost each => ⟨each.1, each.2.1, fun small => ?_⟩
      exact each.2.2 ((RawKey.child_le_textBytes member).trans_lt small)
    refine values.bind fun values own _ each => children.bind fun children below _ all => .pure ?_
    obtain ⟨_, rfl⟩ := first
    obtain ⟨_, rfl⟩ := second
    obtain ⟨narrow, rfl⟩ := third
    have ownItems : own = (k.values.map fun entry => entry.2.listItems).sum :=
      each.sum_items (.id ℕ) fun _ _ _ told => told.1
    have belowItems : below = (k.children.map RawKey.items).sum :=
      all.sum_items (.id ℕ) fun _ _ _ told => told.1
    refine ⟨?_, RawKey.depth_le_iff.mpr ?_, fun small => ?_⟩
    · rw [ownItems, belowItems, RawKey.items_eq]
      omega
    · intro child member
      obtain ⟨view, _, _, deep, _⟩ := all.of_mem_items child member
      exact deep
    · refine .mk (span_holds ((RawKey.name_le_textBytes k).trans_lt small))
        (reads_some ?_) (each.forall₂.flip.imp fun view entry found => ?_)
        (reads_some ?_) (all.forall₂.flip.imp fun view child found => ?_)
      · rw [each.length_eq]
        exact few.trans_lt (by decide)
      · exact found.choose_spec.2 small
      · rw [all.length_eq]
        exact narrow.trans_lt (by decide)
      · exact found.choose_spec.2.2 small

/-- The walk over a key gets through where there are enough levels. -/
theorem key_affords {levels : ℕ} {k : RawKey} (deep : k.depth ≤ levels) :
    (key levels k).Affords maxItems k.items fun _ => True := by
  induction levels generalizing k with
  | zero => exact absurd deep (Nat.not_le.mpr k.depth_pos)
  | succ levels ih =>
    have values : (k.values.mapM value).Affords maxItems (k.values.map fun entry => entry.2.listItems).sum _ :=
      .mapM (List.forall₂_same.mpr fun entry _ => value_affords entry)
    have children : (k.children.mapM (key levels)).Affords maxItems (k.children.map RawKey.items).sum _ :=
      .mapM (List.forall₂_same.mpr fun child member => ih (RawKey.depth_le_iff.mp deep child member))
    have many := k.children_le_items
    have items : k.items = 1 + (k.values.length +
        ((k.values.map fun entry => entry.2.listItems).sum + ((k.children.map RawKey.items).sum + 0))) := by
      rw [RawKey.items_eq]
      omega
    refine (count_charges 1).affords.bind (fun _ _ => ?_) items
    refine (count_charges k.values.length).affords.bind (fun _ _ => ?_) rfl
    refine .check () ?_ ?_
    · intro spent fits
      rw [room, childRoom_eq (by omega), if_pos (by omega)]
      rfl
    · exact values.bind (fun _ _ => children.bind (fun _ _ => .pure trivial) rfl) rfl

theorem tree_keeps (root : Option RawKey) :
    (tree root).Keeps maxItems Fault.Tame fun view cost =>
      cost = root.elim 0 RawKey.items ∧ (∀ key ∈ root, key.depth ≤ maxKeyDepth) ∧
        (root.elim 0 RawKey.textBytes < 2 ^ 64 → Represents view root) := by
  cases root with
  | none => exact .pure ⟨rfl, (fun _ none => nomatch none), fun _ => trivial⟩
  | some key =>
    refine (key_keeps maxKeyDepth key).bind fun view cost _ kept => .pure ?_
    obtain ⟨rfl, deep, represents⟩ := kept
    exact ⟨rfl, fun other same => Option.some.inj same ▸ deep, represents⟩

theorem tree_affords {root : Option RawKey} (deep : ∀ key ∈ root, key.depth ≤ maxKeyDepth) :
    (tree root).Affords maxItems (root.elim 0 RawKey.items) fun _ => True := by
  cases root with
  | none => exact .pure trivial
  | some key => exact (key_affords (deep key rfl)).bind (fun _ _ => .pure trivial) (add_zero _).symm

end Input

/-! ## The library's walk -/

namespace Budget

def limit : Budget := (maxTreeItems, maxTextBytes)

theorem items_charges (n : ℕ) :
    (items n).Charges limit (n, 0) () (invalid "configuration exceeds 65536 keys, values and list items") where
  ok spent room := by
    have few : spent.1 + n ≤ maxTreeItems := room.1
    rw [items, charged_eq (by decide), if_pos few]
    rfl
  error spent within above := by
    have many : ¬spent.1 + n ≤ maxTreeItems := fun few => above ⟨few, within.2⟩
    rw [items, charged_eq (by decide), if_neg many]
    rfl

theorem countText_charges (n : ℕ) :
    (countText n).Charges limit (0, n) () (invalid "configuration text exceeds 4 MiB") where
  ok spent room := by
    have short : spent.2 + n ≤ maxTextBytes := room.2
    rw [countText, charged_eq (by decide), if_pos short]
    rfl
  error spent within above := by
    have long : ¬spent.2 + n ≤ maxTextBytes := fun short => above ⟨within.1, short⟩
    rw [countText, charged_eq (by decide), if_neg long]
    rfl

theorem room_keeps (n : ℕ) : (room n).Keeps limit Fault.Tame fun _ cost => cost = 0 where
  ok {spent after a} within run := by
    rw [room, childRoom_eq (show spent.1 ≤ maxTreeItems from within.1)] at run
    by_cases fits : spent.1 + n ≤ maxTreeItems
    · rw [if_pos fits] at run
      obtain ⟨_, rfl⟩ := Prod.mk.inj (Except.ok.inj run)
      exact ⟨within, 0, (add_zero _).symm, rfl⟩
    · rw [if_neg fits] at run
      contradiction
  error {spent e} within run := by
    rw [room, childRoom_eq (show spent.1 ≤ maxTreeItems from within.1)] at run
    by_cases fits : spent.1 + n ≤ maxTreeItems
    · rw [if_pos fits] at run
      contradiction
    · rw [if_neg fits] at run
      exact Except.error.inj run ▸ trivial

theorem text_keeps (value : Bytes) :
    (text value).Keeps limit Fault.Tame fun out cost => cost.1 = 0 ∧ ∀ other, value.Holds other → out = other := by
  apply ((countText_charges value.len.toNat).keeps trivial).bind
  intro _ cost _ counted
  obtain ⟨_, rfl⟩ := counted
  obtain ⟨e, failed, tame⟩ | ⟨out, read, unique⟩ := text_cases value
  · rw [failed]
    exact .lift (fun _ ok => nomatch ok) fun other same => Except.error.inj same ▸ tame
  · rw [read]
    refine .lift (fun other same => ?_) fun _ failed => nomatch failed
    obtain rfl := Except.ok.inj same
    exact ⟨rfl, unique⟩

theorem text_affords {value : Bytes} {out : String} (holds : value.Holds out) :
    (text value).Affords limit (0, out.utf8ByteSize) fun found => found = out := by
  refine .of_le fun within => ?_
  have length : value.len.toNat = out.utf8ByteSize := holds.length.trans (length_asBytes out)
  refine (countText_charges value.len.toNat).affords.bind
    (fun _ _ => .lift (text_of_holds holds within.2) rfl) ?_
  rw [length, add_zero]

theorem sum_pairs {α : Type} (items texts : α → ℕ) (all : List α) :
    (all.map fun a => ((items a, texts a) : Budget)).sum = ((all.map items).sum, (all.map texts).sum) := by
  induction all with
  | nil => rfl
  | cons a rest ih => rw [List.map_cons, List.sum_cons, ih, List.map_cons, List.sum_cons, List.map_cons, List.sum_cons,
      Prod.mk_add_mk]

/-- Reading an array costs nothing. -/
theorem array_keeps {α : Type} (size : ℕ) (pointer : Option (List α)) (count : U64) :
    (Metered.lift (array size pointer count) : Walk (List α)).Keeps limit Fault.Tame fun out cost =>
      cost = 0 ∧ out.length = count.toNat ∧ ∀ items, Reads pointer count items → out = items := by
  obtain ⟨e, failed, tame⟩ | ⟨items, read, length, _⟩ := array_cases size pointer count
  · rw [failed]
    exact .lift (fun _ ok => nomatch ok) fun other same => Except.error.inj same ▸ tame
  · have unique : ∀ other, Reads pointer count other → items = other := fun other => array_unique read
    rw [read]
    refine .lift (fun other same => ?_) fun _ failed => nomatch failed
    obtain rfl := Except.ok.inj same
    exact ⟨rfl, length, unique⟩

theorem held_keeps (value : Value) :
    (held value).Keeps limit Fault.Tame fun out cost =>
      cost.1 = out.listItems ∧ ∀ raw, value.Stands raw → out = raw := by
  rw [held]
  split
  next kind =>
    refine .pure ⟨rfl, fun raw stands => ?_⟩
    cases stands with
    | other => rfl
    | int _ | str _ _ | list _ _ => omega
  next kind =>
    refine .pure ⟨rfl, fun raw stands => ?_⟩
    cases stands with
    | int => rfl
    | other _ | str _ _ | list _ _ => omega
  next kind =>
    refine (text_keeps value.text).bind fun out cost _ kept => .pure ⟨(add_zero _).trans kept.1, fun raw stands => ?_⟩
    cases stands with
    | str _ holds => rw [kept.2 _ holds]
    | other _ | int _ | list _ _ => omega
  next kind =>
    apply ((items_charges value.list.len.toNat).keeps trivial).bind
    intro _ count _ counted
    apply (array_keeps 16 value.list.data value.list.len).bind
    intro spans none _ read
    refine (Metered.Keeps.mapM fun span _ => text_keeps span).bind fun out cost _ each => .pure ?_
    obtain ⟨_, rfl⟩ := counted
    obtain ⟨rfl, length, unique⟩ := read
    have free : cost.1 = 0 := by
      have sum : cost.1 = (out.map fun _ => 0).sum := each.sum_out (.fst ℕ ℕ) fun _ _ _ told => told.1
      rw [sum, List.map_const', List.sum_replicate, nsmul_zero]
    refine ⟨?_, fun raw stands => ?_⟩
    · change value.list.len.toNat + (0 + (cost.1 + 0)) = out.length
      rw [free, each.length_eq, length]
      omega
    · cases stands with
      | list _ holds =>
        obtain ⟨spans, reads, all⟩ := holds
        obtain rfl := unique spans reads
        rw [each.out_eq (fun _ _ _ told => told.2) all]
      | other _ | int _ | str _ _ => omega
  next => exact .throw trivial

theorem held_affords {value : Value} {raw : RawValue} (stands : value.Stands raw) :
    (held value).Affords limit (raw.listItems, raw.textBytes) fun out => out = raw := by
  cases stands with
  | other kind =>
    rw [held, kind]
    exact .pure rfl
  | int kind =>
    rw [held, kind]
    exact .pure rfl
  | str kind holds =>
    rw [held, kind]
    exact (text_affords holds).bind (fun out same => .pure (congrArg RawValue.str same)) (add_zero _).symm
  | @list texts kind holds =>
    obtain ⟨spans, reads, all⟩ := holds
    have length : spans.length = texts.length := all.length_eq
    refine .of_le fun within => ?_
    have few : texts.length ≤ maxTreeItems := within.1
    have read : array 16 value.list.data value.list.len = .ok spans := by
      apply array_of_reads reads
      rw [length]
      exact few.trans (by decide)
    have each : (spans.mapM text).Affords limit (texts.map fun text => ((0, text.utf8ByteSize) : Budget)).sum (· = texts) :=
      .mapM_eq (all.imp fun span text => text_affords)
    have sum : (texts.length, (texts.map String.utf8ByteSize).sum) =
        (value.list.len.toNat, 0) + (texts.map fun text => ((0, text.utf8ByteSize) : Budget)).sum := by
      rw [sum_pairs, List.map_const', List.sum_replicate, nsmul_zero, Prod.mk_add_mk, reads.length, length, add_zero,
        zero_add]
    rw [held, kind]
    refine (items_charges value.list.len.toNat).affords.bind (fun _ _ => ?_) sum
    refine .check spans (fun spent _ => by rw [read]; rfl) ?_
    exact each.bind (fun out same => .pure (congrArg RawValue.list same)) (add_zero _).symm

theorem value_keeps (v : Value) :
    (value v).Keeps limit Fault.Tame fun out cost =>
      cost.1 = out.2.listItems ∧ ∀ entry, v.Represents entry → out = entry := by
  refine (text_keeps v.name).bind fun name named _ first => (held_keeps v).bind fun held cost _ second => .pure ?_
  refine ⟨?_, fun entry represents => ?_⟩
  · change named.1 + (cost.1 + 0) = held.listItems
    rw [first.1, second.1]
    omega
  · exact Prod.ext (first.2 _ represents.1) (second.2 _ represents.2)

theorem value_affords {v : Value} {entry : String × RawValue} (represents : v.Represents entry) :
    (value v).Affords limit (entry.2.listItems, entry.1.utf8ByteSize + entry.2.textBytes) fun out => out = entry := by
  refine (text_affords represents.1).bind (fun name named => (held_affords represents.2).bind
    (fun held same => .pure (Prod.ext named same)) (add_zero _).symm) ?_
  rw [Prod.mk_add_mk, zero_add]

/-- However the walk over a key ends. -/
theorem key_keeps (levels : ℕ) (k : Key) :
    (key levels (some k)).Keeps limit Fault.Tame fun out cost =>
      ∃ raw, out = some raw ∧ cost.1 = raw.items ∧ raw.depth ≤ levels ∧ ∀ other, k.Represents other → raw = other := by
  induction levels generalizing k with
  | zero => exact .throw trivial
  | succ levels ih =>
    have child (c : Key) : (do
          let found ← key levels (some c)
          .lift (expectChild found) : Walk RawKey).Keeps limit Fault.Tame fun raw cost =>
            cost.1 = raw.items ∧ raw.depth ≤ levels ∧ ∀ other, c.Represents other → raw = other := by
      apply (ih c).bind
      intro out cost _ kept
      obtain ⟨raw, rfl, counted, deep, unique⟩ := kept
      refine .lift (fun found same => ?_) fun _ failed => nomatch failed
      obtain rfl := Except.ok.inj same
      exact ⟨(add_zero _).trans counted, deep, unique⟩
    apply ((items_charges 1).keeps trivial).bind
    intro _ one _ first
    apply ((items_charges k.valueCount.toNat).keeps trivial).bind
    intro _ more _ second
    apply (room_keeps k.childCount.toNat).bind
    intro _ nothing _ third
    apply (text_keeps k.name).bind
    intro name named _ fourth
    apply (array_keeps 64 k.values k.valueCount).bind
    intro values free _ readValues
    apply (array_keeps 48 k.children k.childCount).bind
    intro children free' _ readChildren
    refine (Metered.Keeps.mapM fun v _ => value_keeps v).bind fun entries own _ each => ?_
    refine (Metered.Keeps.mapM fun c _ => child c).bind fun below cost _ all => .pure ?_
    obtain ⟨_, rfl⟩ := first
    obtain ⟨_, rfl⟩ := second
    obtain rfl := third
    obtain ⟨rfl, length, uniqueValues⟩ := readValues
    obtain ⟨rfl, _, uniqueChildren⟩ := readChildren
    refine ⟨⟨name, entries, below⟩, rfl, ?_, RawKey.depth_le_iff.mpr fun c member => ?_, fun other represents => ?_⟩
    · have ownItems : own.1 = (entries.map fun entry => entry.2.listItems).sum :=
        each.sum_out (.fst ℕ ℕ) fun _ _ _ told => told.1
      have belowItems : cost.1 = (below.map RawKey.items).sum := all.sum_out (.fst ℕ ℕ) fun _ _ _ told => told.1
      change 1 + (k.valueCount.toNat + (0 + (named.1 + (0 + (0 + (own.1 + (cost.1 + 0))))))) = _
      have sum : RawKey.items ⟨name, entries, below⟩ = 1 + entries.length +
          (entries.map fun entry => entry.2.listItems).sum + (below.map RawKey.items).sum := RawKey.items_eq _
      rw [fourth.1, ownItems, belowItems, ← length, ← each.length_eq, sum]
      omega
    · obtain ⟨_, _, _, deep, _⟩ := all.of_mem_out c member
      exact deep
    · obtain ⟨holds, valuesThere, representsValues, childrenThere, representsChildren⟩ := represents
      obtain rfl := uniqueValues _ valuesThere
      obtain rfl := uniqueChildren _ childrenThere
      obtain ⟨otherName, otherValues, otherChildren⟩ := other
      obtain rfl := fourth.2 _ holds
      obtain rfl := each.out_eq (fun _ _ _ told => told.2) representsValues
      obtain rfl := all.out_eq (fun _ _ _ told => told.2.2) representsChildren
      rfl

/-- The walk over a layout of a key gets through where there are enough levels. -/
theorem key_affords {levels : ℕ} {k : Key} {raw : RawKey} (represents : k.Represents raw) (deep : raw.depth ≤ levels) :
    (key levels (some k)).Affords limit (raw.items, raw.textBytes) fun out => out = some raw := by
  induction levels generalizing k raw with
  | zero => exact absurd deep (Nat.not_le.mpr raw.depth_pos)
  | succ levels ih =>
    obtain ⟨holds, valuesThere, representsValues, childrenThere, representsChildren⟩ := represents
    rename_i values children
    have each : (values.mapM value).Affords limit
        (raw.values.map fun entry =>
          ((entry.2.listItems, entry.1.utf8ByteSize + entry.2.textBytes) : Budget)).sum (· = raw.values) :=
      .mapM_eq (representsValues.imp fun v entry => value_affords)
    have all : (children.mapM fun c => do
        let found ← key levels (some c)
        .lift (expectChild found) : Walk (List RawKey)).Affords limit
          (raw.children.map fun c => ((c.items, c.textBytes) : Budget)).sum (· = raw.children) := by
      have together := ((List.forall₂_and_left _ _).mpr ⟨RawKey.depth_le_iff.mp deep, representsChildren.flip⟩).flip
      refine .mapM_eq (together.imp fun c r both => ?_)
      refine (ih both.2 both.1).bind (fun found same => ?_) (add_zero _).symm
      rw [same]
      exact .lift rfl rfl
    refine .of_le fun within => ?_
    have few : raw.items ≤ maxTreeItems := within.1
    have ceiling : maxTreeItems ≤ (2 ^ 63 - 1) / max 64 1 ∧ maxTreeItems ≤ (2 ^ 63 - 1) / max 48 1 := by decide
    have own := raw.items_eq
    have many := raw.children_le_items
    have valueCount : values.length = raw.values.length := representsValues.length_eq
    have childCount : children.length = raw.children.length := representsChildren.length_eq
    have readValues : array 64 k.values k.valueCount = .ok values := array_of_reads valuesThere (by omega)
    have readChildren : array 48 k.children k.childCount = .ok children := array_of_reads childrenThere (by omega)
    have counted : k.valueCount.toNat = raw.values.length := valuesThere.length.trans valueCount
    have beneath : k.childCount.toNat = raw.children.length := childrenThere.length.trans childCount
    rw [sum_pairs] at each all
    have sum : (raw.items, raw.textBytes) = (1, 0) + ((k.valueCount.toNat, 0) + ((0, raw.name.utf8ByteSize) +
        (((raw.values.map fun entry => entry.2.listItems).sum,
          (raw.values.map fun entry => entry.1.utf8ByteSize + entry.2.textBytes).sum) +
          (((raw.children.map RawKey.items).sum, (raw.children.map RawKey.textBytes).sum) + 0)))) := by
      rw [own, raw.textBytes_eq, counted, add_zero]
      simp only [Prod.mk_add_mk, Prod.mk.injEq]
      omega
    refine (items_charges 1).affords.bind (fun _ _ => ?_) sum
    refine (items_charges k.valueCount.toNat).affords.bind (fun _ _ => ?_) rfl
    refine .check () (fun spent fits => ?_) ?_
    · have room : spent.1 + (0 + ((raw.values.map fun entry => entry.2.listItems).sum +
          ((raw.children.map RawKey.items).sum + 0))) ≤ maxTreeItems := fits.1
      rw [Budget.room, childRoom_eq (by omega), if_pos (by omega)]
      rfl
    refine (text_affords holds).bind (fun name named => ?_) rfl
    refine .check values (fun spent _ => by rw [readValues]; rfl) ?_
    refine .check children (fun spent _ => by rw [readChildren]; rfl) ?_
    refine each.bind (fun entries same => ?_) rfl
    refine all.bind (fun below found => .pure ?_) rfl
    rw [named, same, found]
    cases raw
    rfl

theorem tree_keeps (pointer : Option Key) :
    (key maxKeyDepth pointer).Keeps limit Fault.Tame fun out cost =>
      cost.1 = out.elim 0 RawKey.items ∧ (∀ raw ∈ out, raw.depth ≤ maxKeyDepth) ∧
        ∀ root, Represents pointer root → out = root := by
  cases pointer with
  | none =>
    refine .pure ⟨rfl, (fun _ none => nomatch none), fun root represents => ?_⟩
    cases root with
    | none => rfl
    | some raw => exact represents.elim
  | some k =>
    apply (key_keeps maxKeyDepth k).mono
    intro out cost kept
    obtain ⟨raw, rfl, counted, deep, unique⟩ := kept
    refine ⟨counted, fun other same => Option.some.inj same ▸ deep, fun root represents => ?_⟩
    cases root with
    | none => exact represents.elim
    | some other => rw [unique other represents]

theorem tree_affords {pointer : Option Key} {root : Option RawKey} (represents : Represents pointer root)
    (deep : ∀ raw ∈ root, raw.depth ≤ maxKeyDepth) :
    (key maxKeyDepth pointer).Affords limit (root.elim 0 RawKey.items, root.elim 0 RawKey.textBytes)
      fun out => out = root := by
  cases pointer with
  | none =>
    cases root with
    | none => exact .pure rfl
    | some raw => exact represents.elim
  | some k =>
    cases root with
    | none => exact represents.elim
    | some raw => exact key_affords represents (deep raw rfl)

end Budget

/-! ## Both trees -/

/-- A pair of trees within the limits: items counted over both, levels in each. -/
structure Within (rules profiles : Option RawKey) : Prop where
  items : rules.elim 0 RawKey.items + profiles.elim 0 RawKey.items ≤ 65536
  rules : ∀ key ∈ rules, key.depth ≤ 128
  profiles : ∀ key ∈ profiles, key.depth ≤ 128

/-- The texts of both trees. -/
def textOf (rules profiles : Option RawKey) : ℕ :=
  rules.elim 0 RawKey.textBytes + profiles.elim 0 RawKey.textBytes

/-- However the client's walk over both trees ends. -/
theorem encode_keeps (rules profiles : Option RawKey) :
    (Input.trees rules profiles).Keeps Input.maxItems Fault.Tame fun views cost =>
      cost = rules.elim 0 RawKey.items + profiles.elim 0 RawKey.items ∧ (∀ key ∈ rules, key.depth ≤ 128) ∧
        (∀ key ∈ profiles, key.depth ≤ 128) ∧
          (textOf rules profiles < 2 ^ 64 → Represents views.1 rules ∧ Represents views.2 profiles) := by
  apply (Input.tree_keeps rules).bind
  intro first cost _ kept
  refine (Input.tree_keeps profiles).bind fun second more _ also => .pure ?_
  obtain ⟨rfl, deep, represents⟩ := kept
  obtain ⟨rfl, deep', represents'⟩ := also
  refine ⟨rfl, deep, deep', fun small => ⟨represents ?_, represents' ?_⟩⟩
  · exact (Nat.le_add_right _ _).trans_lt small
  · exact (Nat.le_add_left _ _).trans_lt small

/-- However the library's walk over both trees ends. -/
theorem decode_keeps (rules profiles : Option Key) :
    (Budget.trees rules profiles).Keeps Budget.limit Fault.Tame fun out cost =>
      cost.1 = out.1.elim 0 RawKey.items + out.2.elim 0 RawKey.items ∧ (∀ key ∈ out.1, key.depth ≤ 128) ∧
        (∀ key ∈ out.2, key.depth ≤ 128) ∧
          ∀ first second, Represents rules first → Represents profiles second → out = (first, second) := by
  apply (Budget.tree_keeps rules).bind
  intro first cost _ kept
  refine (Budget.tree_keeps profiles).bind fun second more _ also => .pure ?_
  obtain ⟨counted, deep, unique⟩ := kept
  obtain ⟨counted', deep', unique'⟩ := also
  refine ⟨?_, deep, deep', fun a b represents represents' => ?_⟩
  · change cost.1 + (more.1 + 0) = _
    rw [counted, counted', add_zero]
  · exact Prod.ext (unique a represents) (unique' b represents')

/-- What the client accepts is within the limits. -/
theorem encode_within {rules profiles : Option RawKey} {views : Option Key × Option Key}
    (encoded : encodeTrees rules profiles = .ok views) :
    Within rules profiles ∧
      (textOf rules profiles < 2 ^ 64 → Represents views.1 rules ∧ Represents views.2 profiles) := by
  obtain ⟨after, run⟩ := Metered.run'_eq_ok.mp encoded
  obtain ⟨bounded, cost, spends, counted, deep, deep', represents⟩ :=
    (encode_keeps rules profiles).ok (Nat.zero_le _) run
  refine ⟨⟨?_, deep, deep'⟩, represents⟩
  rw [← counted, ← Nat.zero_add cost, ← spends]
  exact bounded

/-- The client accepts whatever is within the limits. -/
theorem encode_of_within {rules profiles : Option RawKey} (within : Within rules profiles) :
    ∃ views, encodeTrees rules profiles = .ok views := by
  have both : (Input.trees rules profiles).Affords Input.maxItems
      (rules.elim 0 RawKey.items + (profiles.elim 0 RawKey.items + 0)) fun _ => True :=
    (Input.tree_affords within.rules).bind
      (fun _ _ => (Input.tree_affords within.profiles).bind (fun _ _ => .pure trivial) rfl) rfl
  obtain ⟨views, run, _⟩ := both 0 (by rw [zero_add, add_zero]; exact within.items)
  exact ⟨views, Metered.run'_eq_ok.mpr ⟨_, run⟩⟩

/-- What the library accepts is within the limits. -/
theorem decode_within {p q : Option Key} {rules profiles : Option RawKey}
    (decoded : decodeTrees p q = .ok (rules, profiles)) :
    Within rules profiles ∧ ∀ first second, Represents p first → Represents q second →
      (rules, profiles) = (first, second) := by
  obtain ⟨after, run⟩ := Metered.run'_eq_ok.mp decoded
  have start : ((0, 0) : Budget) ≤ Budget.limit := ⟨Nat.zero_le _, Nat.zero_le _⟩
  obtain ⟨bounded, cost, rfl, counted, deep, deep', unique⟩ := (decode_keeps p q).ok start run
  refine ⟨⟨?_, deep, deep'⟩, unique⟩
  rw [← counted, ← Nat.zero_add cost.1]
  exact bounded.1

/-- The library accepts every layout of trees within the limits, and reads them out of it. -/
theorem decode_of_within {p q : Option Key} {rules profiles : Option RawKey} (representsRules : Represents p rules)
    (representsProfiles : Represents q profiles) (within : Within rules profiles)
    (short : textOf rules profiles ≤ maxTextBytes) : decodeTrees p q = .ok (rules, profiles) := by
  have both : (Budget.trees p q).Affords Budget.limit
      ((rules.elim 0 RawKey.items, rules.elim 0 RawKey.textBytes) +
        ((profiles.elim 0 RawKey.items, profiles.elim 0 RawKey.textBytes) + 0)) fun out => out = (rules, profiles) :=
    (Budget.tree_affords representsRules within.rules).bind
      (fun _ first => (Budget.tree_affords representsProfiles within.profiles).bind
        (fun _ second => .pure (Prod.ext first second)) rfl) rfl
  obtain ⟨out, run, rfl⟩ := both (0, 0) (by
    rw [add_zero, Prod.mk_zero_zero, zero_add]
    exact ⟨within.items, short⟩)
  exact Metered.run'_eq_ok.mpr ⟨_, run⟩

/-- Trees cross the boundary: what the client lays out the library reads back; what the library accepts the client
would lay out; each accepts exactly the pairs within the limits; and neither ever leaves its own types or
expectations, whatever it is passed. -/
theorem trees_cross :
    (∀ rules profiles views, textOf rules profiles ≤ maxTextBytes → encodeTrees rules profiles = .ok views →
        decodeTrees views.1 views.2 = .ok (rules, profiles)) ∧
      (∀ p q rules profiles, decodeTrees p q = .ok (rules, profiles) → ∃ views, encodeTrees rules profiles = .ok views) ∧
      (∀ rules profiles, (∃ views, encodeTrees rules profiles = .ok views) ↔ Within rules profiles) ∧
      (∀ p q rules profiles, Represents p rules → Represents q profiles → textOf rules profiles ≤ maxTextBytes →
        ((∃ out, decodeTrees p q = .ok out) ↔ Within rules profiles)) ∧
      (∀ rules profiles e, encodeTrees rules profiles = .error e → e.Tame) ∧
      ∀ p q e, decodeTrees p q = .error e → e.Tame := by
  refine ⟨fun rules profiles views short encoded => ?_, fun p q rules profiles decoded => ?_, fun rules profiles => ?_,
    fun p q rules profiles representsRules representsProfiles short => ?_, fun rules profiles e failed => ?_,
    fun p q e failed => ?_⟩
  · obtain ⟨within, represents⟩ := encode_within encoded
    obtain ⟨first, second⟩ := represents (short.trans_lt (by decide))
    exact decode_of_within first second within short
  · exact encode_of_within (decode_within decoded).1
  · constructor
    · rintro ⟨views, encoded⟩
      exact (encode_within encoded).1
    · exact encode_of_within
  · constructor
    · rintro ⟨⟨first, second⟩, decoded⟩
      obtain ⟨within, unique⟩ := decode_within decoded
      obtain ⟨rfl, rfl⟩ := Prod.mk.inj (unique rules profiles representsRules representsProfiles)
      exact within
    · exact fun within => ⟨_, decode_of_within representsRules representsProfiles within short⟩
  · exact (encode_keeps rules profiles).error (Nat.zero_le _) (Metered.run'_eq_error.mp failed)
  · exact (decode_keeps p q).error ⟨Nat.zero_le _, Nat.zero_le _⟩ (Metered.run'_eq_error.mp failed)

/-- A tree with a value of every kind. -/
def everyKind : RawKey :=
  ⟨"Rules", [("Order", .int 7), ("Empty", .str ""), ("Hosts", .list ["a", ""]), ("Blob", .other)],
    [⟨"First", [], []⟩, ⟨"", [("None", .list [])], []⟩]⟩

theorem everyKind_crosses :
    ∃ views, encodeTrees (some everyKind) none = .ok views ∧
      decodeTrees views.1 views.2 = .ok (some everyKind, none) := by
  have within : Within (some everyKind) none :=
    ⟨by decide, fun key same => Option.some.inj same ▸ by decide, fun _ none => nomatch none⟩
  obtain ⟨views, encoded⟩ := (trees_cross.2.2.1 (some everyKind) none).mpr within
  exact ⟨views, encoded, trees_cross.1 _ _ views (by decide +kernel) encoded⟩

end Abi

end Netd.Model
