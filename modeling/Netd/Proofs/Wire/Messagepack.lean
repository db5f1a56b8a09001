import Mathlib.Tactic.Ring
import Netd.Model.Messagepack
import Netd.Proofs.Text.Utf8
import Netd.Proofs.Wire.Documents

/-! # MessagePack keeps the codec's word

Every head is read back from its octets, in the shortest form that holds its number; a text is read back
behind its head; and a document is skipped by counting the values that are still to come.
-/

namespace Netd.Model.Wire.Messagepack

/-! ## Numbers -/

theorem length_bigEndian (width n : ℕ) : (bigEndian width n).length = width := by
  induction width with
  | zero => rfl
  | succ width ih => rw [bigEndian, List.length_cons, ih]

theorem foldl_bigEndian (width n value : ℕ) :
    (bigEndian width n).foldl (fun value octet => value * 256 + octet.toNat) value =
      value * 256 ^ width + n % 256 ^ width := by
  induction width generalizing value with
  | zero => rw [bigEndian, List.foldl_nil, Nat.pow_zero, Nat.mul_one, Nat.mod_one, Nat.add_zero]
  | succ width ih =>
    have digit : (BitVec.ofNat 8 (n / 256 ^ width)).toNat = n / 256 ^ width % 256 := BitVec.toNat_ofNat _ _
    have split : n % (256 ^ width * 256) = n % 256 ^ width + 256 ^ width * (n / 256 ^ width % 256) := Nat.mod_mul
    rw [bigEndian, List.foldl_cons, ih, digit, Nat.pow_succ, split]
    ring

theorem ofBigEndian_bigEndian {width n : ℕ} (small : n < 256 ^ width) : ofBigEndian (bigEndian width n) = n := by
  rw [ofBigEndian, foldl_bigEndian, Nat.zero_mul, Nat.zero_add, Nat.mod_eq_of_lt small]

theorem take_append (first rest : Bytes) : take first.length (first ++ rest) = .ok (first, rest) := by
  rw [take, if_neg (by rw [List.length_append]; omega), List.take_left, List.drop_left]

/-! ## Heads -/

namespace Head

theorem toNat_lead {lead : ℕ} (small : lead < 256) : (BitVec.ofNat 8 lead).toNat = lead := by
  rw [BitVec.toNat_ofNat, Nat.mod_eq_of_lt small]

/-- A number behind a lead. -/
theorem read_wide {lead width n : ℕ} {head : ℕ → Head} (known : wide lead = some (head, width)) (high : 0xc3 < lead)
    (octet : lead < 256) (small : n < 256 ^ width) (rest : Bytes) :
    read (BitVec.ofNat 8 lead :: bigEndian width n ++ rest) = .ok (head n, rest) := by
  have taken : take width (bigEndian width n ++ rest) = .ok (bigEndian width n, rest) := by
    have whole := take_append (bigEndian width n) rest
    rwa [length_bigEndian] at whole
  rw [List.cons_append, read, toNat_lead octet]
  dsimp only
  rw [if_neg (by omega), if_neg (by omega), if_neg (by omega), if_neg (by omega), if_neg (by omega),
    if_neg (by omega), if_neg (by omega), known]
  dsimp only
  rw [taken]
  dsimp only [bind, Except.bind]
  rw [ofBigEndian_bigEndian small]
  rfl

/-- Numbers that a head's octets can hold. -/
def Valid : Head → Prop
  | map n | array n | str n => n < 2 ^ 32
  | uint n => n < 2 ^ 64
  | bool _ | nil => True

/-- A number in one of the forms with a lead. -/
theorem read_sized {n : ℕ} {head : ℕ → Head} {forms : List (ℕ × ℕ)}
    (known : ∀ form ∈ forms, wide form.1 = some (head, form.2) ∧ 0xc3 < form.1 ∧ form.1 < 256)
    (held : ∃ form ∈ forms, n < 256 ^ form.2) (rest : Bytes) : read (sized n forms ++ rest) = .ok (head n, rest) := by
  induction forms with
  | nil =>
    obtain ⟨_, member, _⟩ := held
    cases member
  | cons form wider ih =>
    obtain ⟨⟨is, high, octet⟩, others⟩ := List.forall_mem_cons.mp known
    rw [sized]
    split_ifs with small
    · exact read_wide is high octet small rest
    · apply ih others
      obtain ⟨other, member, fits⟩ := held
      obtain rfl | later := List.mem_cons.mp member
      · exact absurd fits small
      · exact ⟨other, later, fits⟩

/-- A head is read back from its octets. -/
theorem read_write {head : Head} (valid : head.Valid) (rest : Bytes) :
    read (head.write ++ rest) = .ok (head, rest) := by
  cases head with
  | map n =>
    have small : n < 2 ^ 32 := valid
    rw [write]
    split_ifs with short
    · have lead := toNat_lead (show 0x80 + n < 256 by omega)
      simp only [List.cons_append, List.nil_append, read, lead]
      rw [if_neg (by omega), if_pos (by omega), Nat.add_sub_cancel_left]
    · exact read_sized (by simp [wide]) ⟨(0xdf, 4), by decide, by omega⟩ rest
  | array n =>
    have small : n < 2 ^ 32 := valid
    rw [write]
    split_ifs with short
    · have lead := toNat_lead (show 0x90 + n < 256 by omega)
      simp only [List.cons_append, List.nil_append, read, lead]
      rw [if_neg (by omega), if_neg (by omega), if_pos (by omega), Nat.add_sub_cancel_left]
    · exact read_sized (by simp [wide]) ⟨(0xdd, 4), by decide, by omega⟩ rest
  | str n =>
    have small : n < 2 ^ 32 := valid
    rw [write]
    split_ifs with short
    · have lead := toNat_lead (show 0xa0 + n < 256 by omega)
      simp only [List.cons_append, List.nil_append, read, lead]
      rw [if_neg (by omega), if_neg (by omega), if_neg (by omega), if_pos (by omega), Nat.add_sub_cancel_left]
    · exact read_sized (by simp [wide]) ⟨(0xdb, 4), by decide, by omega⟩ rest
  | uint n =>
    have small : n < 2 ^ 64 := valid
    rw [write]
    split_ifs with short
    · have lead := toNat_lead (show n < 256 by omega)
      simp only [List.cons_append, List.nil_append, read, lead]
      rw [if_pos (by omega)]
    · exact read_sized (by simp [wide]) ⟨(0xcf, 8), by decide, by omega⟩ rest
  | bool value => cases value <;> rfl
  | nil => rfl

end Head

/-! ## Texts -/

theorem valid_str {text : String} (spelt : Spelt text) : (Head.str (asBytes text).length).Valid := by
  change (asBytes text).length < 2 ^ 32
  rwa [length_asBytes]

theorem readStr_write {text : String} (spelt : Spelt text) (rest : Bytes) :
    readStr (write (.str text) ++ rest) = .ok (text, rest) := by
  rw [write, List.append_assoc, readStr, Head.read_write (valid_str spelt)]
  dsimp only [bind, Except.bind]
  rw [take_append]
  dsimp only
  rw [fromUtf8_asBytes]
  rfl

/-! ## Tokens -/

/-- A token is a head and what follows it. -/
theorem write_head {token : Token} (spells : token.Spells Spelt) :
    ∃ (head : Head) (content : Bytes), head.Valid ∧ write token = head.write ++ content ∧
      (head = .nil ↔ token = .nil) := by
  cases token with
  | map n => exact ⟨.map n.toNat, [], n.isLt, (List.append_nil _).symm, nofun, nofun⟩
  | array n => exact ⟨.array n.toNat, [], n.isLt, (List.append_nil _).symm, nofun, nofun⟩
  | str text => exact ⟨.str (asBytes text).length, asBytes text, valid_str spells, rfl, nofun, nofun⟩
  | uint value => exact ⟨.uint value.toNat, [], value.isLt, (List.append_nil _).symm, nofun, nofun⟩
  | bool value => exact ⟨.bool value, [], trivial, (List.append_nil _).symm, nofun, nofun⟩
  | nil => exact ⟨.nil, [], trivial, rfl, fun _ => rfl, fun _ => rfl⟩

theorem write_ne_nil {token : Token} (spells : token.Spells Spelt) : write token ≠ [] := by
  obtain ⟨head, content, valid, shape, _⟩ := write_head spells
  intro empty
  have nothing : head.write = [] := (List.append_eq_nil_iff.mp (shape ▸ empty)).1
  have read := Head.read_write valid []
  rw [nothing] at read
  cases read

/-- Only a nil begins like one. -/
theorem head_write {token : Token} (spells : token.Spells Spelt) (rest : Bytes) :
    decide ((write token ++ rest).head? = some 0xc0#8) = decide (token = .nil) := by
  obtain ⟨head, content, valid, shape, isNil⟩ := write_head spells
  refine decide_eq_decide.mpr ⟨fun first => ?_, ?_⟩
  · obtain ⟨more, octets⟩ := List.head?_eq_some_iff.mp first
    have read := Head.read_write valid (content ++ rest)
    rw [← List.append_assoc, ← shape, octets] at read
    have same : Head.read (0xc0#8 :: more) = .ok (.nil, more) := rfl
    rw [same] at read
    exact isNil.mp (congrArg Prod.fst (Except.ok.inj read)).symm
  · rintro rfl
    rfl

/-! ## Skipping -/

/-- One token is skipped, and what belongs to it is still to come. -/
theorem skipFrom_write {token : Token} (spells : token.Spells Spelt) (fuel pending : ℕ) (rest : Bytes) :
    skipFrom (fuel + 1) (pending + 1) (write token ++ rest) = skipFrom fuel (children token + pending) rest := by
  cases token with
  | map n =>
    have read := Head.read_write (show (Head.map n.toNat).Valid from n.isLt) rest
    rw [write, skipFrom, read]
    rfl
  | array n =>
    have read := Head.read_write (show (Head.array n.toNat).Valid from n.isLt) rest
    rw [write, skipFrom, read]
    rfl
  | str text =>
    rw [write, List.append_assoc, skipFrom, Head.read_write (valid_str spells)]
    dsimp only [bind, Except.bind]
    rw [take_append, children, Nat.zero_add]
  | uint value =>
    have read := Head.read_write (show (Head.uint value.toNat).Valid from value.isLt) rest
    rw [write, skipFrom, read, children, Nat.zero_add]
    rfl
  | bool value =>
    have read := Head.read_write (show (Head.bool value).Valid from trivial) rest
    rw [write, skipFrom, read, children, Nat.zero_add]
    rfl
  | nil => rw [children, Nat.zero_add]; rfl

mutual

/-- A document is skipped whole. -/
theorem skip_doc : ∀ (d : Doc), d.Fits Spelt → ∀ (fuel pending : ℕ) (rest : Bytes),
    skipFrom (d.tokens.length + fuel) (pending + 1) (d.tokens.flatMap write ++ rest) = skipFrom fuel pending rest
  | .str text, fits, fuel, pending, rest => by
    rw [Doc.tokens, List.flatMap_singleton, Nat.add_comm]
    exact (@skipFrom_write (.str text) fits fuel pending rest).trans (by rw [children, Nat.zero_add])
  | .uint value, _, fuel, pending, rest => by
    rw [Doc.tokens, List.flatMap_singleton, Nat.add_comm]
    exact (@skipFrom_write (.uint value) trivial fuel pending rest).trans (by rw [children, Nat.zero_add])
  | .bool value, _, fuel, pending, rest => by
    rw [Doc.tokens, List.flatMap_singleton, Nat.add_comm]
    exact (@skipFrom_write (.bool value) trivial fuel pending rest).trans (by rw [children, Nat.zero_add])
  | .nil, _, fuel, pending, rest => by
    rw [Doc.tokens, List.flatMap_singleton, Nat.add_comm]
    exact (@skipFrom_write .nil trivial fuel pending rest).trans (by rw [children, Nat.zero_add])
  | .array items, fits, fuel, pending, rest => by
    rw [Doc.tokens, List.flatMap_cons, List.length_cons, Nat.add_right_comm, List.append_assoc,
      @skipFrom_write (.array _) trivial, children, count_toNat fits.1]
    exact skip_items items fits.2 fuel pending rest
  | .map fields, fits, fuel, pending, rest => by
    rw [Doc.tokens, List.flatMap_cons, List.length_cons, Nat.add_right_comm, List.append_assoc,
      @skipFrom_write (.map _) trivial, children, count_toNat fits.1]
    exact skip_fields fields fits.2 fuel pending rest

theorem skip_items : ∀ (items : List Doc), Doc.ItemsFit Spelt items → ∀ (fuel pending : ℕ) (rest : Bytes),
    skipFrom ((Doc.itemTokens items).length + fuel) (items.length + pending)
      ((Doc.itemTokens items).flatMap write ++ rest) = skipFrom fuel pending rest
  | [], _, fuel, pending, rest => by
    rw [Doc.itemTokens, List.length_nil, List.length_nil, Nat.zero_add, Nat.zero_add]
    rfl
  | item :: others, fits, fuel, pending, rest => by
    rw [Doc.itemTokens, List.flatMap_append, List.length_append, List.length_cons, List.append_assoc, Nat.add_assoc,
      Nat.add_right_comm, skip_doc item fits.1, skip_items others fits.2]

theorem skip_fields : ∀ (fields : List (String × Doc)), Doc.FieldsFit Spelt fields →
    ∀ (fuel pending : ℕ) (rest : Bytes), skipFrom ((Doc.fieldTokens fields).length + fuel) (2 * fields.length + pending)
      ((Doc.fieldTokens fields).flatMap write ++ rest) = skipFrom fuel pending rest
  | [], _, fuel, pending, rest => by
    rw [Doc.fieldTokens, List.length_nil, List.length_nil, Nat.mul_zero, Nat.zero_add, Nat.zero_add]
    rfl
  | (key, value) :: others, fits, fuel, pending, rest => by
    have count : 2 * ((key, value) :: others).length + pending = 2 * others.length + pending + 1 + 1 := by
      rw [List.length_cons]
      omega
    have spells : (Token.str key).Spells Spelt := fits.1
    rw [Doc.fieldTokens, List.flatMap_cons, List.flatMap_append, List.length_cons, List.length_append,
      List.append_assoc, List.append_assoc, count, Nat.add_right_comm, skipFrom_write spells, children, Nat.zero_add,
      Nat.add_assoc, skip_doc value fits.2.1, skip_fields others fits.2.2]

end

/-! ## Whole values -/

theorem plain_iff {token : Token} : plain token = true ↔ token.Spells Spelt := by
  cases token with
  | str text => exact decide_eq_true_iff
  | _ => exact iff_of_true rfl trivial

/-- One token of several values, and what belongs to it. -/
theorem complete_cons {token : Token} (spells : token.Spells Spelt) (pending : ℕ) (rest : List Token) :
    complete (pending + 1) (token :: rest) = complete (children token + pending) rest := by
  rw [complete, plain_iff.mpr spells, Bool.true_and]

mutual

/-- A document is one value. -/
theorem complete_doc : ∀ (d : Doc), d.Fits Spelt → ∀ (pending : ℕ) (rest : List Token),
    complete (pending + 1) (d.tokens ++ rest) = complete pending rest
  | .str text, fits, pending, rest => by
    have spells : (Token.str text).Spells Spelt := fits
    rw [Doc.tokens, List.singleton_append, complete_cons spells, children, Nat.zero_add]
  | .uint value, _, pending, rest => by
    rw [Doc.tokens, List.singleton_append, @complete_cons (.uint value) trivial, children, Nat.zero_add]
  | .bool value, _, pending, rest => by
    rw [Doc.tokens, List.singleton_append, @complete_cons (.bool value) trivial, children, Nat.zero_add]
  | .nil, _, pending, rest => by
    rw [Doc.tokens, List.singleton_append, @complete_cons .nil trivial, children, Nat.zero_add]
  | .array items, fits, pending, rest => by
    rw [Doc.tokens, List.cons_append, @complete_cons (.array _) trivial, children, count_toNat fits.1]
    exact complete_items items fits.2 pending rest
  | .map fields, fits, pending, rest => by
    rw [Doc.tokens, List.cons_append, @complete_cons (.map _) trivial, children, count_toNat fits.1]
    exact complete_fields fields fits.2 pending rest

theorem complete_items : ∀ (items : List Doc), Doc.ItemsFit Spelt items → ∀ (pending : ℕ) (rest : List Token),
    complete (items.length + pending) (Doc.itemTokens items ++ rest) = complete pending rest
  | [], _, pending, rest => by
    rw [Doc.itemTokens, List.length_nil, Nat.zero_add, List.nil_append]
  | item :: others, fits, pending, rest => by
    rw [Doc.itemTokens, List.length_cons, List.append_assoc, Nat.add_right_comm, complete_doc item fits.1,
      complete_items others fits.2]

theorem complete_fields : ∀ (fields : List (String × Doc)), Doc.FieldsFit Spelt fields →
    ∀ (pending : ℕ) (rest : List Token),
      complete (2 * fields.length + pending) (Doc.fieldTokens fields ++ rest) = complete pending rest
  | [], _, pending, rest => by
    rw [Doc.fieldTokens, List.length_nil, Nat.mul_zero, Nat.zero_add, List.nil_append]
  | (key, value) :: others, fits, pending, rest => by
    have count : 2 * ((key, value) :: others).length + pending = 2 * others.length + pending + 1 + 1 := by
      rw [List.length_cons]
      omega
    have spells : (Token.str key).Spells Spelt := fits.1
    rw [Doc.fieldTokens, List.cons_append, List.append_assoc, count, complete_cons spells, children, Nat.zero_add,
      complete_doc value fits.2.1, complete_fields others fits.2.2]

end

/-! ## The codec -/

theorem length_le_flatMap {tokens : List Token} (spells : ∀ token ∈ tokens, token.Spells Spelt) :
    tokens.length ≤ (tokens.flatMap write).length := by
  induction tokens with
  | nil => exact Nat.zero_le _
  | cons token rest ih =>
    obtain ⟨here, later⟩ := List.forall_mem_cons.mp spells
    have some := List.length_pos_iff.mpr (write_ne_nil here)
    have others := ih later
    rw [List.flatMap_cons, List.length_append, List.length_cons]
    omega

theorem skip_octets {d : Doc} (fits : d.Fits Spelt) (rest : Bytes) :
    skipFrom (d.tokens.flatMap write ++ rest).length 1 (d.tokens.flatMap write ++ rest) = .ok ((), rest) := by
  have enough : d.tokens.length ≤ (d.tokens.flatMap write ++ rest).length := by
    rw [List.length_append]
    exact (length_le_flatMap fits.spells).trans (Nat.le_add_right _ _)
  obtain ⟨fuel, same⟩ := Nat.exists_eq_add_of_le enough
  rw [same, ← Nat.zero_add 1, skip_doc d fits]
  cases fuel <;> rfl

theorem toBytes_doc {d : Doc} (fits : d.Fits Spelt) :
    messagepack.toBytes d.tokens = some (d.tokens.flatMap write) := by
  have whole := complete_doc d fits 0 []
  rw [List.append_nil, Nat.zero_add] at whole
  exact if_pos whole

end Netd.Model.Wire.Messagepack

namespace Netd.Model.Wire

open Messagepack in
theorem messagepack_lawful : messagepack.Lawful Spelt where
  toBytes := toBytes_doc
  readMap n rest := by
    have read := Head.read_write (show (Head.map n.toNat).Valid from n.isLt) rest
    change readMap ((Head.map n.toNat).write ++ rest) = _
    rw [readMap, read]
  readArray n rest := by
    have read := Head.read_write (show (Head.array n.toNat).Valid from n.isLt) rest
    change readArray ((Head.array n.toNat).write ++ rest) = _
    rw [readArray, read]
  readStr := readStr_write
  readUint value rest := by
    have read := Head.read_write (show (Head.uint value.toNat).Valid from value.isLt) rest
    change readUint ((Head.uint value.toNat).write ++ rest) = _
    rw [readUint, read]
    dsimp only
    rw [BitVec.ofNat_toNat, BitVec.setWidth_eq]
  readBool value rest := by
    have read := Head.read_write (show (Head.bool value).Valid from trivial) rest
    change readBool ((Head.bool value).write ++ rest) = _
    rw [readBool, read]
  readNil rest := rfl
  skip := skip_octets
  peekNil := head_write
  write_ne_nil := write_ne_nil

end Netd.Model.Wire
