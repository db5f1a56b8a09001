import Mathlib.Algebra.Order.BigOperators.Group.List
import Mathlib.Data.Nat.Digits.Defs
import Netd.Proofs.Wire.RoundTrip

/-! # How long messages are

MessagePack says how long each value is. A snapshot is as long as its texts and a little more for each,
so its length can be told from what it is made of.
-/

namespace Netd.Model.Wire

/-! ## Values -/

/-- A text behind its length. -/
def textSize (text : String) : ℕ :=
  text.utf8ByteSize +
    if text.utf8ByteSize < 32 then 1 else if text.utf8ByteSize < 256 then 2
    else if text.utf8ByteSize < 65536 then 3 else 5

/-- The header of a map or an array. -/
def countSize (n : ℕ) : ℕ := if n < 16 then 1 else if n < 65536 then 3 else 5

def numberSize (n : ℕ) : ℕ :=
  if n < 128 then 1 else if n < 256 then 2 else if n < 65536 then 3 else if n < 2 ^ 32 then 5 else 9

def textsSize (texts : List String) : ℕ := countSize texts.length + (texts.map textSize).sum

def Token.size : Token → ℕ
  | .map n | .array n => countSize n.toNat
  | .str text => textSize text
  | .uint value => numberSize value.toNat
  | .bool _ | .nil => 1

/-- A codec that writes MessagePack in its shortest forms. -/
structure Msgpack.Measured {ε : Type} (codec : Msgpack ε) : Prop where
  toBytes : ∀ {d : Doc}, d.Fits Spelt → codec.toBytes d.tokens = some (codec.octets d.tokens)
  write : ∀ {token : Token}, token.Spells Spelt → (codec.write token).length = token.size

/-- A codec that writes every text out. -/
def Msgpack.Verbatim {ε : Type} (codec : Msgpack ε) : Prop :=
  ∀ ⦃tokens octets text⦄, codec.toBytes tokens = some octets → .str text ∈ tokens → text.utf8ByteSize ≤ octets.length

def sizes (tokens : List Token) : ℕ := (tokens.map Token.size).sum

theorem sizes_append (first second : List Token) : sizes (first ++ second) = sizes first + sizes second := by
  rw [sizes, sizes, sizes, List.map_append, List.sum_append]

theorem sizes_cons (token : Token) (rest : List Token) : sizes (token :: rest) = token.size + sizes rest := by
  rw [sizes, sizes, List.map_cons, List.sum_cons]

theorem sizes_nil : sizes [] = 0 := rfl

theorem sizes_flatMap {α : Type} (tokens : α → List Token) (items : List α) :
    sizes (items.flatMap tokens) = (items.map fun item => sizes (tokens item)).sum := by
  induction items with
  | nil => rfl
  | cons item rest ih => rw [List.flatMap_cons, sizes_append, ih, List.map_cons, List.sum_cons]

theorem sizes_strs (texts : List String) : sizes (texts.map .str) = (texts.map textSize).sum := by
  rw [sizes, List.map_map]
  rfl

theorem textSize_pos (text : String) : 0 < textSize text := by
  unfold textSize
  split_ifs <;> omega

theorem utf8ByteSize_lt_textSize (text : String) : text.utf8ByteSize < textSize text := by
  unfold textSize
  split_ifs <;> omega

/-- Every item counts for something. -/
theorem length_le_sum {α : Type} {size : α → ℕ} (positive : ∀ item, 0 < size item) (items : List α) :
    items.length ≤ (items.map size).sum := by
  have counted : (items.map size).length ≤ (items.map size).sum := by
    apply List.length_le_sum_of_one_le
    intro count member
    obtain ⟨item, -, rfl⟩ := List.mem_map.mp member
    exact positive item
  rwa [List.length_map] at counted

theorem length_le_textsSize (texts : List String) : texts.length ≤ textsSize texts :=
  (length_le_sum textSize_pos texts).trans (Nat.le_add_left _ _)

theorem size_le_sizes {tokens : List Token} {token : Token} (member : token ∈ tokens) : token.size ≤ sizes tokens :=
  List.single_le_sum (fun _ _ => Nat.zero_le _) _ (List.mem_map_of_mem member)

/-! ## Snapshots -/

/-- A scope: its keys, two flags and a header, and its contents. -/
def DnsScope.size (s : DnsScope) : ℕ :=
  80 + textSize s.ifid + textSize s.name + textsSize s.servers + textsSize s.domains + textsSize s.ntp +
    textsSize s.addresses + numberSize s.metric.toNat + textSize s.level.asStr

/-- A snapshot: its keys, what it says of itself, and its contents. -/
def Snapshot.size (s : Snapshot) : ℕ :=
  35 + textSize s.hostname + countSize s.scopes.length + (s.scopes.map DnsScope.size).sum

theorem sizes_writeStrList (key : String) {texts : List String} (short : texts.length < 2 ^ 32) :
    sizes (writeStrList key texts) = textSize key + textsSize texts := by
  rw [writeStrList, sizes_append, sizes_strs, sizes_cons, sizes_cons, sizes_nil, Token.size, Token.size,
    count_toNat short, textsSize]
  omega

theorem DnsScope.sizes_tokens {s : DnsScope} (short : s.Short) : sizes s.tokens = s.size := by
  have metric : (s.metric.setWidth 64).toNat = s.metric.toNat := by
    rw [BitVec.toNat_setWidth, Nat.mod_eq_of_lt (s.metric.isLt.trans (by decide))]
  have header : countSize (10 : U32).toNat = 1 := by decide
  have keys : textSize "ifid" = 5 ∧ textSize "name" = 5 ∧ textSize "servers" = 8 ∧ textSize "domains" = 8 ∧
      textSize "ntp" = 4 ∧ textSize "addresses" = 10 ∧ textSize "default_route" = 14 ∧ textSize "exclusive" = 10 ∧
      textSize "metric" = 7 ∧ textSize "level" = 6 := by
    decide
  rw [DnsScope.tokens, DnsScope.size]
  simp only [sizes_append, sizes_cons, sizes_nil, sizes_writeStrList _ short.servers,
    sizes_writeStrList _ short.domains,
    sizes_writeStrList _ short.ntp, sizes_writeStrList _ short.addresses, Token.size, metric, header]
  omega

theorem Snapshot.sizes_tokens {s : Snapshot} (short : (Reply.snapshot s).Short) :
    sizes (Reply.snapshot s).tokens = s.size := by
  have header : countSize (4 : U32).toNat = 1 := by decide
  have keys : textSize "ok" = 3 ∧ textSize "kind" = 5 ∧ textSize "snapshot" = 9 ∧ textSize "hostname" = 9 ∧
      textSize "scopes" = 7 := by
    decide
  have scopes : s.scopes.map (fun scope => sizes scope.tokens) = s.scopes.map DnsScope.size :=
    List.map_congr_left fun scope member => DnsScope.sizes_tokens (short.2 scope member)
  rw [Reply.tokens, Snapshot.size, sizes_append, sizes_flatMap, scopes]
  simp only [sizes_cons, sizes_nil, Token.size, count_toNat short.1, header]
  omega

/-- A snapshot of a size that can be sent has no list that cannot be counted. -/
theorem Snapshot.short_of_size {s : Snapshot} (small : s.size < 2 ^ 32) : (Reply.snapshot s).Short := by
  have positive (scope : DnsScope) : 0 < scope.size := by
    rw [DnsScope.size]
    omega
  have scopes := length_le_sum positive s.scopes
  rw [Snapshot.size] at small
  refine ⟨by omega, fun scope member => ?_⟩
  have within : scope.size ≤ (s.scopes.map DnsScope.size).sum :=
    List.single_le_sum (fun _ _ => Nat.zero_le _) _ (List.mem_map_of_mem member)
  have servers := length_le_textsSize scope.servers
  have domains := length_le_textsSize scope.domains
  have ntp := length_le_textsSize scope.ntp
  have addresses := length_le_textsSize scope.addresses
  rw [DnsScope.size] at within
  exact ⟨by omega, by omega, by omega, by omega⟩

/-- A reply of a size that can be sent has no text that cannot be written. -/
theorem Reply.spells_of_size (r : Reply) (small : sizes r.tokens < 2 ^ 32) : r.Spells Spelt := by
  intro token member
  have bounded := size_le_sizes member
  cases token with
  | str text =>
    have shorter := utf8ByteSize_lt_textSize text
    rw [Token.size] at bounded
    exact (shorter.trans_le bounded).trans small
  | _ => trivial

/-- An error is longer than its message by what surrounds it. -/
theorem sizes_error (message : String) : sizes (Reply.error message).tokens ≤ message.utf8ByteSize + 16 := by
  have header : countSize (2 : U32).toNat = 1 := by decide
  have keys : textSize "ok" = 3 ∧ textSize "error" = 6 := by decide
  have text : textSize message ≤ message.utf8ByteSize + 5 := by
    rw [textSize]
    split_ifs <;> omega
  rw [Reply.tokens]
  simp only [sizes_cons, sizes_nil, Token.size, header]
  omega

/-- A length is named in few digits. -/
theorem utf8ByteSize_tooLarge {ε : Type} (texts : Texts ε) {n : ℕ} (machine : n < 2 ^ 64) :
    ((WireError.tooLarge n).display texts).utf8ByteSize ≤ 120 := by
  have digits : (toString n).utf8ByteSize ≤ 4 * 20 := by
    have few := Nat.repr_length n 20 (by decide) (machine.trans (by decide))
    have bounded := utf8ByteSize_le (toString n)
    rw [String.length_toList] at bounded
    exact bounded.trans (Nat.mul_le_mul_left 4 few)
  have around : "message of ".utf8ByteSize = 11 ∧ " bytes exceeds the ceiling".utf8ByteSize = 26 := by
    decide +kernel
  have shown : (WireError.tooLarge n).display texts = "message of " ++ toString n ++ " bytes exceeds the ceiling" :=
    rfl
  simp only [shown, String.utf8ByteSize_append, around]
  omega

section Codec

variable {ε : Type} {codec : Msgpack ε} (measured : codec.Measured)

include measured

theorem octets_length {tokens : List Token} (spells : ∀ token ∈ tokens, token.Spells Spelt) :
    (codec.octets tokens).length = sizes tokens := by
  induction tokens with
  | nil => rfl
  | cons token rest ih =>
    obtain ⟨here, later⟩ := List.forall_mem_cons.mp spells
    rw [codec.octets_cons, List.length_append, measured.write here, ih later, sizes_cons]

/-- The length of a reply. -/
theorem Reply.length_encode {r : Reply} (short : r.Short) (small : sizes r.tokens < 2 ^ 32) :
    (r.encode codec).length = sizes r.tokens := by
  have spells := r.spells_of_size small
  have written := measured.toBytes (Reply.fits_doc short spells)
  rw [r.tokens_doc] at written
  rw [Reply.encode, written, Option.getD_some, octets_length measured spells]

theorem Snapshot.length_encode {s : Snapshot} (small : s.size < 2 ^ 32) :
    ((Reply.snapshot s).encode codec).length = s.size := by
  have short := Snapshot.short_of_size small
  have same := Snapshot.sizes_tokens short
  rw [Reply.length_encode measured short (same ▸ small), same]

/-- The error that takes the place of a reply that is too large is small itself. -/
theorem length_tooLarge (texts : Texts ε) {n : ℕ} (machine : n < 2 ^ 64) :
    ((Reply.error ((WireError.tooLarge n).display texts)).encode codec).length ≤ maxMessageBytes := by
  have short : (Reply.error ((WireError.tooLarge n).display texts)).Short := trivial
  have text := utf8ByteSize_tooLarge texts machine
  have size := sizes_error ((WireError.tooLarge n).display texts)
  have most : maxMessageBytes = 65536 := rfl
  rw [Reply.length_encode measured short (by omega)]
  omega

end Codec

/-! ## MessagePack -/

open Messagepack

/-- A number behind its lead, by the first form that holds it. -/
theorem Messagepack.length_form (n lead width : ℕ) (wider : List (ℕ × ℕ)) :
    (Head.sized n ((lead, width) :: wider)).length =
      if n < 256 ^ width then width + 1 else (Head.sized n wider).length := by
  rw [Head.sized, apply_ite List.length, List.length_cons, length_bigEndian]

theorem Messagepack.length_map {n : ℕ} (small : n < 2 ^ 32) : (Head.map n).write.length = countSize n := by
  rw [Head.write, apply_ite List.length, length_form, length_form, countSize]
  simp only [List.length_singleton]
  split_ifs <;> omega

theorem Messagepack.length_array {n : ℕ} (small : n < 2 ^ 32) : (Head.array n).write.length = countSize n := by
  rw [Head.write, apply_ite List.length, length_form, length_form, countSize]
  simp only [List.length_singleton]
  split_ifs <;> omega

theorem Messagepack.length_uint {n : ℕ} (small : n < 2 ^ 64) : (Head.uint n).write.length = numberSize n := by
  rw [Head.write, apply_ite List.length, length_form, length_form, length_form, length_form, numberSize]
  simp only [List.length_singleton]
  split_ifs <;> omega

theorem Messagepack.length_str {text : String} (small : text.utf8ByteSize < 2 ^ 32) :
    (Messagepack.write (.str text)).length = textSize text := by
  rw [Messagepack.write, List.length_append, length_asBytes, Head.write, apply_ite List.length, length_form,
    length_form, length_form, textSize]
  simp only [List.length_singleton]
  split_ifs <;> omega

theorem messagepack_measured : messagepack.Measured where
  toBytes := messagepack_lawful.toBytes
  write {token} spells := by
    change (Messagepack.write token).length = token.size
    cases token with
    | map n => exact Messagepack.length_map n.isLt
    | array n => exact Messagepack.length_array n.isLt
    | str text => exact Messagepack.length_str spells
    | uint value => exact Messagepack.length_uint value.isLt
    | bool value => cases value <;> rfl
    | nil => rfl

theorem messagepack_verbatim : messagepack.Verbatim := by
  intro tokens octets text accepted member
  change (if complete 1 tokens then some (tokens.flatMap Messagepack.write) else none) = some octets at accepted
  split_ifs at accepted
  obtain rfl := Option.some.inj accepted
  have within : (Messagepack.write (.str text)).length ≤ (tokens.flatMap Messagepack.write).length := by
    rw [List.length_flatMap]
    exact List.single_le_sum (fun _ _ => Nat.zero_le _) _ (List.mem_map_of_mem member)
  rw [Messagepack.write, List.length_append, length_asBytes] at within
  omega

end Netd.Model.Wire
