import Netd.Model.Core.Text
import Mathlib.Tactic.SplitIfs

/-! # Text survives its octets

Every scalar value is decoded from its own octets, whatever follows them, and from no others, so
`from_utf8` gives back the text that `as_bytes` was taken of, and takes nothing else for it.
-/

namespace Netd.Model

/-- The octets of a scalar value. -/
def charOctets (c : Char) : Bytes := (String.utf8EncodeChar c).map UInt8.toBitVec

theorem asBytes_eq (text : String) : asBytes text = text.toList.flatMap charOctets := by
  rw [asBytes, String.toUTF8, ← String.utf8Encode_toList, List.utf8Encode, List.data_toByteArray]
  exact List.map_flatMap

theorem toNat_octet {n : ℕ} (small : n < 256) : (UInt8.ofNat n).toBitVec.toNat = n := by
  have same : (UInt8.ofNat n).toBitVec.toNat = n % 256 := rfl
  rw [same, Nat.mod_eq_of_lt small]

/-- The numbers that are scalar values. -/
theorem char_bounds (c : Char) : c.toNat < 0xd800 ∨ (0xdfff < c.toNat ∧ c.toNat < 0x110000) := c.valid

section Widths

variable {c : Char} (rest : Bytes)

theorem utf8Next_one (low : c.toNat ≤ 0x7f) :
    utf8Next (UInt8.ofNat c.toNat).toBitVec rest = (some c, rest) := by
  have lead := toNat_octet (show c.toNat < 256 by omega)
  have width : utf8CharWidth (UInt8.ofNat c.toNat).toBitVec = 1 := by
    rw [utf8CharWidth, lead, if_pos (by omega)]
  simp only [utf8Next, width, lead, Char.ofNat_toNat]

theorem utf8Next_two {first second : U8} (high : 0x7f < c.toNat) (low : c.toNat ≤ 0x7ff)
    (lead : first.toNat = c.toNat / 64 % 0x20 + 0xc0) (next : second.toNat = c.toNat % 0x40 + 0x80) :
    utf8Next first (second :: rest) = (some c, rest) := by
  have width : utf8CharWidth first = 2 := by
    rw [utf8CharWidth, lead, if_neg (by omega), if_pos (by omega)]
  have continues : isContinuation second = true := by
    simp only [isContinuation, next, Bool.and_eq_true, decide_eq_true_eq]
    omega
  have value : first.toNat % 32 * 64 + payload second = c.toNat := by
    rw [payload, lead, next]
    omega
  simp only [utf8Next, width, continues, if_true, value, Char.ofNat_toNat]

theorem utf8Next_three {first second third : U8} (high : 0x7ff < c.toNat) (low : c.toNat ≤ 0xffff)
    (lead : first.toNat = c.toNat / 4096 % 0x10 + 0xe0) (next : second.toNat = c.toNat / 64 % 0x40 + 0x80)
    (last : third.toNat = c.toNat % 0x40 + 0x80) :
    utf8Next first (second :: third :: rest) = (some c, rest) := by
  have bounds := char_bounds c
  have width : utf8CharWidth first = 3 := by
    rw [utf8CharWidth, lead, if_neg (by omega), if_neg (by omega), if_pos (by omega)]
  have admitted : secondOctet first second = true := by
    simp only [secondOctet, ← BitVec.toNat_inj, lead, next, BitVec.toNat_ofNat, Bool.and_eq_true, decide_eq_true_eq]
    split_ifs <;> omega
  have continues : isContinuation third = true := by
    simp only [isContinuation, last, Bool.and_eq_true, decide_eq_true_eq]
    omega
  have value : (first.toNat % 16 * 64 + payload second) * 64 + payload third = c.toNat := by
    rw [payload, payload, lead, next, last]
    omega
  simp only [utf8Next, width, admitted, continues, if_true, value, Char.ofNat_toNat]

theorem utf8Next_four {first second third fourth : U8} (high : 0xffff < c.toNat)
    (lead : first.toNat = c.toNat / 262144 % 0x08 + 0xf0) (next : second.toNat = c.toNat / 4096 % 0x40 + 0x80)
    (middle : third.toNat = c.toNat / 64 % 0x40 + 0x80) (last : fourth.toNat = c.toNat % 0x40 + 0x80) :
    utf8Next first (second :: third :: fourth :: rest) = (some c, rest) := by
  have bounds := char_bounds c
  have width : utf8CharWidth first = 4 := by
    rw [utf8CharWidth, lead, if_neg (by omega), if_neg (by omega), if_neg (by omega), if_pos (by omega)]
  have admitted : secondOctet first second = true := by
    simp only [secondOctet, ← BitVec.toNat_inj, lead, next, BitVec.toNat_ofNat, Bool.and_eq_true, decide_eq_true_eq]
    split_ifs <;> omega
  have continues {octet : U8} {n : ℕ} (same : octet.toNat = n % 0x40 + 0x80) : isContinuation octet = true := by
    simp only [isContinuation, same, Bool.and_eq_true, decide_eq_true_eq]
    omega
  have value : ((first.toNat % 8 * 64 + payload second) * 64 + payload third) * 64 + payload fourth = c.toNat := by
    rw [payload, payload, payload, lead, next, middle, last]
    omega
  simp only [utf8Next, width, admitted, continues middle, continues last, if_true, value, Char.ofNat_toNat]

end Widths

theorem charOctets_one {c : Char} (low : c.toNat ≤ 0x7f) : charOctets c = [(UInt8.ofNat c.toNat).toBitVec] := by
  unfold charOctets String.utf8EncodeChar
  dsimp only
  change List.map UInt8.toBitVec (ite (c.toNat ≤ _) _ _) = _
  rw [if_pos low]
  rfl

theorem charOctets_two {c : Char} (high : 0x7f < c.toNat) (low : c.toNat ≤ 0x7ff) : charOctets c =
    [(UInt8.ofNat (c.toNat / 64 % 0x20 + 0xc0)).toBitVec, (UInt8.ofNat (c.toNat % 0x40 + 0x80)).toBitVec] := by
  unfold charOctets String.utf8EncodeChar
  dsimp only
  change List.map UInt8.toBitVec (ite (c.toNat ≤ _) _ (ite (c.toNat ≤ _) _ _)) = _
  rw [if_neg (Nat.not_le.mpr high), if_pos low]
  rfl

theorem charOctets_three {c : Char} (high : 0x7ff < c.toNat) (low : c.toNat ≤ 0xffff) : charOctets c =
    [(UInt8.ofNat (c.toNat / 4096 % 0x10 + 0xe0)).toBitVec, (UInt8.ofNat (c.toNat / 64 % 0x40 + 0x80)).toBitVec,
      (UInt8.ofNat (c.toNat % 0x40 + 0x80)).toBitVec] := by
  unfold charOctets String.utf8EncodeChar
  dsimp only
  change List.map UInt8.toBitVec (ite (c.toNat ≤ _) _ (ite (c.toNat ≤ _) _ (ite (c.toNat ≤ _) _ _))) = _
  rw [if_neg (by omega), if_neg (by omega), if_pos low]
  rfl

theorem charOctets_four {c : Char} (high : 0xffff < c.toNat) : charOctets c =
    [(UInt8.ofNat (c.toNat / 262144 % 0x08 + 0xf0)).toBitVec, (UInt8.ofNat (c.toNat / 4096 % 0x40 + 0x80)).toBitVec,
      (UInt8.ofNat (c.toNat / 64 % 0x40 + 0x80)).toBitVec, (UInt8.ofNat (c.toNat % 0x40 + 0x80)).toBitVec] := by
  unfold charOctets String.utf8EncodeChar
  dsimp only
  change List.map UInt8.toBitVec (ite (c.toNat ≤ _) _ (ite (c.toNat ≤ _) _ (ite (c.toNat ≤ _) _ _))) = _
  rw [if_neg (by omega), if_neg (by omega), if_neg (by omega)]
  rfl

/-- A scalar value is decoded from its octets. -/
theorem utf8Chunks_char (c : Char) (rest : Bytes) :
    utf8Chunks (charOctets c ++ rest) = some c :: utf8Chunks rest := by
  have bounds := char_bounds c
  have octet (n : ℕ) (small : n < 256) := toNat_octet small
  have done {lead : U8} {more : Bytes} (next : utf8Next lead more = (some c, rest)) :
      utf8Chunks (lead :: more) = some c :: utf8Chunks rest := by
    rw [utf8Chunks, next]
  by_cases one : c.toNat ≤ 0x7f
  · rw [charOctets_one one]
    exact done (utf8Next_one rest one)
  by_cases two : c.toNat ≤ 0x7ff
  · rw [charOctets_two (by omega) two]
    exact done (utf8Next_two rest (by omega) two (octet _ (by omega)) (octet _ (by omega)))
  by_cases three : c.toNat ≤ 0xffff
  · rw [charOctets_three (by omega) three]
    exact done (utf8Next_three rest (by omega) three (octet _ (by omega)) (octet _ (by omega)) (octet _ (by omega)))
  · rw [charOctets_four (by omega)]
    exact done (utf8Next_four rest (by omega) (octet _ (by omega)) (octet _ (by omega)) (octet _ (by omega))
      (octet _ (by omega)))

theorem utf8Chunks_chars (chars : List Char) : utf8Chunks (chars.flatMap charOctets) = chars.map some := by
  induction chars with
  | nil =>
    rw [List.flatMap_nil, utf8Chunks]
    rfl
  | cons c rest ih => rw [List.flatMap_cons, utf8Chunks_char, ih, List.map_cons]

/-- What a text's octets spell is the text. -/
theorem fromUtf8_asBytes (text : String) : fromUtf8 (asBytes text) = some text := by
  have all : (text.toList.map some).mapM id = some text.toList := by
    induction text.toList with
    | nil => rfl
    | cons c rest ih => rw [List.map_cons, List.mapM_cons, ih]; rfl
  rw [fromUtf8, asBytes_eq, utf8Chunks_chars, all, Option.map_some, String.ofList_toList]

/-! ## Octets that are decoded -/

theorem octet_eq {octet : U8} {n : ℕ} (same : octet.toNat = n) : (UInt8.ofNat n).toBitVec = octet := by
  apply BitVec.eq_of_toNat_eq
  have := octet.isLt
  rw [toNat_octet (by omega), same]

theorem toNat_ofNat {n : ℕ} (valid : n < 0xd800 ∨ (0xdfff < n ∧ n < 0x110000)) : (Char.ofNat n).toNat = n := by
  have : n.isValidChar := valid
  rw [Char.ofNat, dif_pos this]
  rfl

theorem utf8CharWidth_bounds (lead : U8) : (utf8CharWidth lead = 1 → lead.toNat < 0x80) ∧
    (utf8CharWidth lead = 2 → 0xc2 ≤ lead.toNat ∧ lead.toNat ≤ 0xdf) ∧
    (utf8CharWidth lead = 3 → 0xe0 ≤ lead.toNat ∧ lead.toNat ≤ 0xef) ∧
    (utf8CharWidth lead = 4 → 0xf0 ≤ lead.toNat ∧ lead.toNat ≤ 0xf4) := by
  unfold utf8CharWidth
  split_ifs
  all_goals refine ⟨fun width => ?_, fun width => ?_, fun width => ?_, fun width => ?_⟩
  all_goals first | omega | cases width

theorem isContinuation_bounds {octet : U8} (continues : isContinuation octet = true) :
    0x80 ≤ octet.toNat ∧ octet.toNat ≤ 0xbf := by
  simpa only [isContinuation, Bool.and_eq_true, decide_eq_true_eq] using continues

theorem secondOctet_bounds {lead second : U8} (admitted : secondOctet lead second = true) :
    0x80 ≤ second.toNat ∧ second.toNat ≤ 0xbf ∧ (lead.toNat = 0xe0 → 0xa0 ≤ second.toNat) ∧
      (lead.toNat = 0xf0 → 0x90 ≤ second.toNat) ∧ (lead.toNat = 0xed → second.toNat ≤ 0x9f) ∧
      (lead.toNat = 0xf4 → second.toNat ≤ 0x8f) := by
  simp only [secondOctet, ← BitVec.toNat_inj, BitVec.toNat_ofNat, Bool.and_eq_true, decide_eq_true_eq] at admitted
  split_ifs at admitted
  all_goals refine ⟨?_, ?_, fun _ => ?_, fun _ => ?_, fun _ => ?_, fun _ => ?_⟩
  all_goals omega

section Spelled

variable {first second third fourth : U8} (rest : Bytes)

theorem spelled_one (low : first.toNat < 0x80) : first :: rest = charOctets (Char.ofNat first.toNat) ++ rest := by
  have value : (Char.ofNat first.toNat).toNat = first.toNat := toNat_ofNat (by omega)
  rw [charOctets_one (by omega), octet_eq value.symm]
  rfl

theorem spelled_two (lead : 0xc2 ≤ first.toNat ∧ first.toNat ≤ 0xdf) (next : isContinuation second = true) :
    first :: second :: rest = charOctets (Char.ofNat (first.toNat % 32 * 64 + payload second)) ++ rest := by
  have bounds := isContinuation_bounds next
  have low : payload second = second.toNat - 0x80 := by
    rw [payload]
    omega
  have value : (Char.ofNat (first.toNat % 32 * 64 + payload second)).toNat = first.toNat % 32 * 64 + payload second :=
    toNat_ofNat (by omega)
  rw [charOctets_two (by omega) (by omega), @octet_eq first _ (by omega), @octet_eq second _ (by omega)]
  rfl

theorem spelled_three (lead : 0xe0 ≤ first.toNat ∧ first.toNat ≤ 0xef) (next : secondOctet first second = true)
    (last : isContinuation third = true) : first :: second :: third :: rest =
      charOctets (Char.ofNat ((first.toNat % 16 * 64 + payload second) * 64 + payload third)) ++ rest := by
  have bounds := secondOctet_bounds next
  have bounds' := isContinuation_bounds last
  have middle : payload second = second.toNat - 0x80 := by
    rw [payload]
    omega
  have low : payload third = third.toNat - 0x80 := by
    rw [payload]
    omega
  have value : (Char.ofNat ((first.toNat % 16 * 64 + payload second) * 64 + payload third)).toNat =
      (first.toNat % 16 * 64 + payload second) * 64 + payload third := toNat_ofNat (by omega)
  rw [charOctets_three (by omega) (by omega), @octet_eq first _ (by omega), @octet_eq second _ (by omega),
    @octet_eq third _ (by omega)]
  rfl

theorem spelled_four (lead : 0xf0 ≤ first.toNat ∧ first.toNat ≤ 0xf4) (next : secondOctet first second = true)
    (middle : isContinuation third = true) (last : isContinuation fourth = true) :
    first :: second :: third :: fourth :: rest =
      charOctets (Char.ofNat (((first.toNat % 8 * 64 + payload second) * 64 + payload third) * 64 + payload fourth)) ++
        rest := by
  have bounds := secondOctet_bounds next
  have bounds' := isContinuation_bounds middle
  have bounds'' := isContinuation_bounds last
  have high : payload second = second.toNat - 0x80 := by
    rw [payload]
    omega
  have middle : payload third = third.toNat - 0x80 := by
    rw [payload]
    omega
  have low : payload fourth = fourth.toNat - 0x80 := by
    rw [payload]
    omega
  have value : (Char.ofNat (((first.toNat % 8 * 64 + payload second) * 64 + payload third) * 64 +
      payload fourth)).toNat = ((first.toNat % 8 * 64 + payload second) * 64 + payload third) * 64 + payload fourth :=
    toNat_ofNat (by omega)
  rw [charOctets_four (by omega), @octet_eq first _ (by omega), @octet_eq second _ (by omega),
    @octet_eq third _ (by omega), @octet_eq fourth _ (by omega)]
  rfl

end Spelled

/-- A scalar value that is decoded has been spelled by its octets. -/
theorem utf8Next_some {lead : U8} {rest more : Bytes} {c : Char} (next : utf8Next lead rest = (some c, more)) :
    lead :: rest = charOctets c ++ more := by
  obtain ⟨one, two, three, four⟩ := utf8CharWidth_bounds lead
  unfold utf8Next at next
  split at next
  · next width =>
    cases next
    exact spelled_one _ (one width)
  · next second rest width =>
    split_ifs at next with continues
    on_goal 2 => cases next
    cases next
    exact spelled_two _ (two width) continues
  · next second rest width =>
    split_ifs at next with admitted
    on_goal 2 => cases next
    split at next
    on_goal 2 => cases next
    next third rest =>
      split_ifs at next with continues
      on_goal 2 => cases next
      cases next
      exact spelled_three _ (three width) admitted continues
  · next second rest width =>
    split_ifs at next with admitted
    on_goal 2 => cases next
    split at next
    on_goal 2 => cases next
    next third rest =>
      split_ifs at next with continues
      on_goal 2 => cases next
      split at next
      on_goal 2 => cases next
      next fourth rest =>
        split_ifs at next with ends
        on_goal 2 => cases next
        cases next
        exact spelled_four _ (four width) admitted continues ends
  · cases next

theorem flatMap_charOctets {octets : Bytes} {chars : List Char} (decoded : utf8Chunks octets = chars.map some) :
    chars.flatMap charOctets = octets := by
  fun_induction utf8Chunks octets generalizing chars with
  | case1 =>
    obtain rfl := List.map_eq_nil_iff.mp decoded.symm
    rfl
  | case2 lead rest ih =>
    obtain ⟨c, later, rfl, first, others⟩ := List.map_eq_cons_iff.mp decoded.symm
    rw [List.flatMap_cons, ih others.symm]
    exact (utf8Next_some (Prod.ext first.symm rfl)).symm

/-- The octets that spell a text are the text's octets. -/
theorem asBytes_fromUtf8 {octets : Bytes} {text : String} (spells : fromUtf8 octets = some text) :
    asBytes text = octets := by
  obtain ⟨chars, all, rfl⟩ := Option.map_eq_some_iff.mp spells
  rw [asBytes_eq, String.toList_ofList]
  apply flatMap_charOctets
  clear spells
  generalize utf8Chunks octets = chunks at all
  induction chunks generalizing chars with
  | nil =>
    obtain rfl : [] = chars := Option.some.inj all
    rfl
  | cons chunk rest ih =>
    rw [List.mapM_cons] at all
    obtain ⟨c, first, all⟩ := Option.bind_eq_some_iff.mp all
    obtain ⟨later, others, all⟩ := Option.bind_eq_some_iff.mp all
    obtain rfl := Option.some.inj all
    rw [List.map_cons, ih later others]
    exact congrArg (· :: _) first

/-! ## Lengths -/

theorem length_asBytes (text : String) : (asBytes text).length = text.utf8ByteSize := List.length_map _

/-- A text is as long as its scalar values. -/
theorem utf8ByteSize_eq (text : String) : text.utf8ByteSize = (text.toList.map Char.utf8Size).sum := by
  rw [← length_asBytes, asBytes_eq, List.length_flatMap]
  refine congrArg List.sum (List.map_congr_left fun c _ => ?_)
  rw [charOctets, List.length_map, String.length_utf8EncodeChar]

theorem utf8ByteSize_le (text : String) : text.utf8ByteSize ≤ 4 * text.toList.length := by
  rw [utf8ByteSize_eq]
  induction text.toList with
  | nil => exact le_rfl
  | cons c rest ih =>
    have here := c.utf8Size_le_four
    rw [List.map_cons, List.sum_cons, List.length_cons]
    omega

end Netd.Model
