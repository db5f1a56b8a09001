import Mathlib.Tactic.IntervalCases
import Netd.Model.Core.Display
import Netd.Model.Core.Parse
import Netd.Proofs.Octets
import Netd.Proofs.Text.Utf8

/-! # Addresses read back from their text

A number is read back from its digits, and reading stops where the digits do. An IPv4 address is four numbers
between dots. The groups of an IPv6 address are read one after another until the run that was left out, where
reading starts again; no text of groups is taken for an IPv4 address.
-/

namespace Netd.Model

/-! ## Numbers -/

theorem toDigit_digitChar {radix n : ℕ} (small : n < radix) (most : radix ≤ 16) :
    toDigit radix n.digitChar = some n := by
  have few : n < 16 := by omega
  interval_cases n <;> simp [toDigit, Nat.digitChar, small]

theorem pushDigit_digitChar {radix n : ℕ} (bound value : ℕ) (small : n < radix) (most : radix ≤ 16)
    (within : value * radix + n < bound) : pushDigit radix bound value n.digitChar = some (value * radix + n) := by
  rw [pushDigit, toDigit_digitChar small most]
  exact if_pos within

/-- A number below the bound is read back from its digits. -/
theorem foldlM_toDigits {radix bound : ℕ} (least : 1 < radix) (most : radix ≤ 16) (n : ℕ) (within : n < bound) :
    (Nat.toDigits radix n).foldlM (pushDigit radix bound) 0 = some n := by
  induction n using Nat.strongRecOn with
  | ind n ih =>
    rw [Nat.toDigits_eq_if least]
    split_ifs with small
    · have step := pushDigit_digitChar bound 0 small most (by omega)
      rw [Nat.zero_mul, Nat.zero_add] at step
      rw [List.foldlM_cons, step]
      rfl
    · have less : n / radix < n := Nat.div_lt_self (by omega) least
      have back : n / radix * radix + n % radix = n := Nat.div_add_mod' n radix
      have step := pushDigit_digitChar bound (n / radix) (Nat.mod_lt n (by omega)) most (by omega)
      rw [back] at step
      rw [List.foldlM_append, ih _ less (by omega)]
      change List.foldlM _ (n / radix) _ = _
      rw [List.foldlM_cons, step]
      rfl

theorem isDigit_toDigits {radix : ℕ} (least : 1 < radix) (most : radix ≤ 16) (n : ℕ) :
    ∀ c ∈ Nat.toDigits radix n, (toDigit radix c).isSome := by
  induction n using Nat.strongRecOn with
  | ind n ih =>
    have last (d : ℕ) (small : d < radix) : (toDigit radix d.digitChar).isSome := by
      rw [toDigit_digitChar small most]
      rfl
    rw [Nat.toDigits_eq_if least]
    split_ifs with small
    · exact List.forall_mem_singleton.mpr (last n small)
    · refine List.forall_mem_append.mpr ⟨ih _ (Nat.div_lt_self (by omega) least), ?_⟩
      exact List.forall_mem_singleton.mpr (last _ (Nat.mod_lt n (by omega)))

/-- No digit of this radix comes first. -/
def Stops (radix : ℕ) (rest : List Char) : Prop := ∀ c ∈ rest.head?, toDigit radix c = none

theorem Stops.nil (radix : ℕ) : Stops radix [] := by
  rintro _ ⟨⟩

theorem Stops.takeWhile {radix : ℕ} {digits rest : List Char} (stops : Stops radix rest)
    (digit : ∀ c ∈ digits, (toDigit radix c).isSome) :
    ((digits ++ rest).takeWhile fun c => (toDigit radix c).isSome) = digits := by
  have none : rest.takeWhile (fun c => (toDigit radix c).isSome) = [] := by
    cases rest with
    | nil => rfl
    | cons c more => exact List.takeWhile_cons_of_neg (by rw [stops c rfl]; exact Bool.false_ne_true)
  rw [List.takeWhile_append_of_pos digit, none, List.append_nil]

/-- A number is read where its digits end, if it has no more digits than allowed and no zero leads where none may. -/
theorem readNumber_toDigits {radix digits bound n : ℕ} {lead : Bool} {rest : List Char} (least : 1 < radix)
    (most : radix ≤ 16) (within : n < bound) (few : (Nat.toDigits radix n).length ≤ digits)
    (plain : lead = true ∨ (Nat.toDigits radix n).head? ≠ some '0' ∨ (Nat.toDigits radix n).length = 1)
    (stops : Stops radix rest) : readNumber radix digits bound lead (Nat.toDigits radix n ++ rest) = some (n, rest) := by
  have taken := stops.takeWhile (isDigit_toDigits least most n)
  have some : (Nat.toDigits radix n).isEmpty = false := by
    rw [List.isEmpty_eq_false_iff]
    exact Nat.toDigits_ne_nil
  rw [readNumber, taken, some, foldlM_toDigits least most n within, List.drop_left, if_neg]
  · rfl
  · have enough : ¬digits < (Nat.toDigits radix n).length := by omega
    rintro refused
    simp only [Bool.false_or, Bool.or_eq_true, decide_eq_true_eq, enough, false_or, Bool.and_eq_true, Bool.not_eq_true',
      beq_iff_eq] at refused
    obtain ⟨⟨never, zero⟩, more⟩ := refused
    rcases plain with yes | nonzero | one
    · exact Bool.noConfusion (never.symm.trans yes)
    · exact nonzero zero
    · omega

/-! ## IPv4 -/

/-- The text of an octet, and of the octets behind it. -/
def octetDigits (octet : U8) : List Char := Nat.toDigits 10 octet.toNat

theorem octetDigits_plain (octet : U8) : (octetDigits octet).length ≤ 3 ∧
    ((octetDigits octet).head? ≠ some '0' ∨ (octetDigits octet).length = 1) ∧
    ((octetDigits octet).map Char.utf8Size).sum ≤ 3 := by
  revert octet
  decide +kernel

theorem read_octet (octet : U8) {rest : List Char} (stops : Stops 10 rest) :
    readNumber 10 3 256 false (octetDigits octet ++ rest) = some (octet.toNat, rest) := by
  obtain ⟨few, plain, -⟩ := octetDigits_plain octet
  exact readNumber_toDigits (by decide) (by decide) octet.isLt few (.inr plain) stops

/-- Four octets between dots, and what follows them. -/
def dottedDigits (first second third fourth : U8) : List Char :=
  octetDigits first ++ '.' :: (octetDigits second ++ '.' :: (octetDigits third ++ '.' :: octetDigits fourth))

theorem octets_eq (address : Ipv4Addr) : Ipv4Addr.octets address =
    [address.extractLsb' 24 8, address.extractLsb' 16 8, address.extractLsb' 8 8, address.extractLsb' 0 8] := rfl

theorem toList_displayV4 (address : Ipv4Addr) : (Ipv4Addr.display address).toList =
    dottedDigits (address.extractLsb' 24 8) (address.extractLsb' 16 8) (address.extractLsb' 8 8)
      (address.extractLsb' 0 8) := by
  rw [Ipv4Addr.display, octets_eq, String.toList_intercalate]
  simp [dottedDigits, octetDigits, List.intercalate]

/-- What one octet adds to an address that is being read. -/
theorem readIpv4Addr_octets (first second third fourth : U8) {rest : List Char} (stops : Stops 10 rest) :
    readIpv4Addr (dottedDigits first second third fourth ++ rest) =
      some (fromBeBytes [first, second, third, fourth], rest) := by
  have dot {more : List Char} : Stops 10 ('.' :: more) := by
    rintro _ ⟨⟩
    decide
  have octet (o : U8) : BitVec.ofNat 32 o.toNat = o.setWidth 32 := BitVec.ofNat_toNat 32 o
  have range : List.range 4 = [0, 1, 2, 3] := rfl
  simp only [readIpv4Addr, range, dottedDigits, List.append_assoc, List.cons_append, List.foldlM_cons, List.foldlM_nil,
    readSeparator, read_octet _ dot, read_octet _ stops, Option.bind_eq_bind, Option.bind_some, Nat.lt_irrefl, octet,
    Nat.zero_lt_succ, ite_true, ite_false]
  rfl

theorem readIpv4Addr_display (address : Ipv4Addr) {rest : List Char} (stops : Stops 10 rest) :
    readIpv4Addr ((Ipv4Addr.display address).toList ++ rest) = some (address, rest) := by
  rw [toList_displayV4, readIpv4Addr_octets _ _ _ _ stops, ← octets_eq, Ipv4Addr.octets,
    fromBeBytes_toBeBytes address rfl]

theorem readIpv4Addr_whole (address : Ipv4Addr) :
    readIpv4Addr (Ipv4Addr.display address).toList = some (address, []) := by
  have read := readIpv4Addr_display address (Stops.nil 10)
  rwa [List.append_nil] at read

theorem utf8ByteSize_displayV4 (address : Ipv4Addr) : (Ipv4Addr.display address).utf8ByteSize ≤ 15 := by
  have few (octet : U8) := (octetDigits_plain octet).2.2
  have dot : Char.utf8Size '.' = 1 := rfl
  rw [utf8ByteSize_eq, toList_displayV4, dottedDigits]
  simp only [List.map_append, List.map_cons, List.sum_append, List.sum_cons, dot]
  have first := few (address.extractLsb' 24 8)
  have second := few (address.extractLsb' 16 8)
  have third := few (address.extractLsb' 8 8)
  have fourth := few (address.extractLsb' 0 8)
  omega

theorem parseIpv4Addr_display (address : Ipv4Addr) : parseIpv4Addr (Ipv4Addr.display address) = some address := by
  have short := utf8ByteSize_displayV4 address
  rw [parseIpv4Addr, if_neg (by omega), readIpv4Addr_whole]

/-! ## IPv6 -/

theorem Stops.dropWhile {radix : ℕ} {rest : List Char} (stops : Stops radix rest) :
    (rest.dropWhile fun c => (toDigit radix c).isSome) = rest := by
  cases rest with
  | nil => rfl
  | cons c more => exact List.dropWhile_cons_of_neg (by rw [stops c rfl]; exact Bool.false_ne_true)

theorem readNumber_rest {radix digits bound n : ℕ} {lead : Bool} {input rest : List Char}
    (read : readNumber radix digits bound lead input = some (n, rest)) :
    rest = input.dropWhile fun c => (toDigit radix c).isSome := by
  rw [readNumber] at read
  split_ifs at read
  obtain ⟨value, -, same⟩ := Option.map_eq_some_iff.mp read
  obtain ⟨-, rfl⟩ := Prod.mk.inj same
  conv_lhs => rw [← List.takeWhile_append_dropWhile (p := fun c => (toDigit radix c).isSome) (l := input)]
  rw [List.drop_left' (by rw [List.takeWhile_append_dropWhile])]

/-- What is read as an IPv4 address has a dot where its first digits end. -/
theorem readIpv4Addr_none {input : List Char}
    (plain : (input.dropWhile fun c => (toDigit 10 c).isSome).head? ≠ some '.') : readIpv4Addr input = none := by
  have range : List.range 4 = [0, 1, 2, 3] := rfl
  rw [readIpv4Addr, range, List.foldlM_cons]
  cases first : readNumber 10 3 256 false input with
  | none => simp [readSeparator, first]
  | some found =>
    obtain ⟨octet, rest⟩ := found
    obtain rfl := readNumber_rest first
    have second : readSeparator '.' 1 (readNumber 10 3 256 false)
        (input.dropWhile fun c => (toDigit 10 c).isSome) = none := by
      unfold readSeparator
      rw [if_pos (by decide)]
      split
      · rename_i c more spelled
        rw [spelled] at plain
        exact if_neg fun dot => plain (congrArg some dot)
      · rfl
    simp [readSeparator, first, List.foldlM_cons] at second ⊢
    simp [second]

/-- Hexadecimal digits and what follows them are no IPv4 address. -/
theorem readIpv4Addr_hex {digits rest : List Char} (digit : ∀ c ∈ digits, (toDigit 16 c).isSome)
    (stops : Stops 10 rest) (plain : rest.head? ≠ some '.') : readIpv4Addr (digits ++ rest) = none := by
  apply readIpv4Addr_none
  rw [List.dropWhile_append]
  split_ifs with decimal
  · rwa [stops.dropWhile]
  · cases left : digits.dropWhile fun c => (toDigit 10 c).isSome with
    | nil => simp [left] at decimal
    | cons c more =>
      have member : c ∈ digits := (List.dropWhile_sublist _).mem (by rw [left]; exact List.mem_cons_self)
      rintro dot
      obtain rfl := Option.some.inj dot
      exact absurd (digit _ member) (by decide)

/-- The groups behind others, each after a colon. -/
def groupDigits (groups : List U16) : List Char := groups.flatMap fun group => ':' :: Nat.toDigits 16 group.toNat

theorem toList_displayGroups (group : U16) (groups : List U16) :
    (displayGroups (group :: groups)).toList = Nat.toDigits 16 group.toNat ++ groupDigits groups := by
  induction groups generalizing group with
  | nil => simp [displayGroups, groupDigits, lowerHex]
  | cons next more ih =>
    have rest := ih next
    rw [displayGroups, List.map_cons] at rest ⊢
    rw [List.map_cons, String.intercalate_cons_cons, String.toList_append, String.toList_append, rest]
    simp [groupDigits, lowerHex]

/-- Nothing, or a colon first. -/
def Behind (rest : List Char) : Prop := ∀ c ∈ rest.head?, c = ':'

theorem Behind.stops {rest : List Char} (behind : Behind rest) : Stops 16 rest ∧ Stops 10 rest :=
  ⟨fun c first => behind c first ▸ by decide, fun c first => behind c first ▸ by decide⟩

theorem Behind.plain {rest : List Char} (behind : Behind rest) : rest.head? ≠ some '.' :=
  fun dot => absurd (behind '.' dot) (by decide)

theorem Behind.colon (rest : List Char) : Behind (':' :: rest) := by
  rintro _ ⟨⟩
  rfl

/-- Where no group can follow. -/
def Ends (rest : List Char) : Prop := rest = [] ∨ ∃ more, rest = ':' :: ':' :: more

theorem Ends.behind {rest : List Char} (ends : Ends rest) : Behind rest := by
  rcases ends with rfl | ⟨more, rfl⟩
  · rintro _ ⟨⟩
  · exact .colon _

theorem groupDigits_behind (groups : List U16) {rest : List Char} (behind : Behind rest) :
    Behind (groupDigits groups ++ rest) := by
  cases groups with
  | nil => exact behind
  | cons group more => exact .colon _

theorem readIpv4Addr_behind {rest : List Char} (behind : Behind rest) : readIpv4Addr rest = none :=
  @readIpv4Addr_hex [] rest (by simp) behind.stops.2 behind.plain

theorem readNumber_none {radix digits bound : ℕ} {lead : Bool} {rest : List Char} (stops : Stops radix rest) :
    readNumber radix digits bound lead rest = none := by
  have none : rest.takeWhile (fun c => (toDigit radix c).isSome) = [] := @Stops.takeWhile radix [] rest stops (by simp)
  rw [readNumber, none]
  rfl

/-- What stands before a group that is read behind others. -/
def separator (groups : List U16) : List Char := if groups = [] then [] else [':']

theorem readSeparator_separator {α : Type} (inner : List Char → Option (α × List Char)) (groups : List U16)
    (input : List Char) : readSeparator ':' groups.length inner (separator groups ++ input) = inner input := by
  cases groups with
  | nil => rfl
  | cons group more => exact if_pos (by simp)

/-- One group is read, and reading goes on behind it. -/
theorem readGroups_group (limit remaining : ℕ) (groups : List U16) (group : U16) {rest : List Char}
    (behind : Behind rest) :
    readGroups limit (remaining + 1) groups (separator groups ++ (Nat.toDigits 16 group.toNat ++ rest)) =
      readGroups limit remaining (groups ++ [group]) rest := by
  have digit : ∀ c ∈ Nat.toDigits 16 group.toNat, (toDigit 16 c).isSome :=
    isDigit_toDigits (by decide) (by decide) group.toNat
  have four : (Nat.toDigits 16 group.toNat).length ≤ 4 :=
    (Nat.length_toDigits_le_iff (by decide) (by decide)).mpr group.isLt
  have read : readNumber 16 4 65536 true (Nat.toDigits 16 group.toNat ++ rest) = some (group.toNat, rest) :=
    readNumber_toDigits (by decide) (by decide) group.isLt four (.inl rfl) behind.stops.1
  have word : BitVec.ofNat 16 group.toNat = group := (BitVec.ofNat_toNat 16 group).trans (BitVec.setWidth_eq group)
  rw [readGroups, readSeparator_separator, readSeparator_separator,
    readIpv4Addr_hex digit behind.stops.2 behind.plain, read, ite_self]
  dsimp only
  rw [word]

/-- Where no group can follow, the groups are what they were. -/
theorem readGroups_ends {limit : ℕ} (remaining : ℕ) (groups : List U16) {rest : List Char} (ends : Ends rest) :
    readGroups limit remaining groups rest = (groups, false, rest) := by
  cases remaining with
  | zero => rfl
  | succ remaining =>
    have nothing {α : Type} (inner : List Char → Option (α × List Char))
        (refused : ∀ input, Behind input → inner input = none) :
        readSeparator ':' groups.length inner rest = none := by
      unfold readSeparator
      split_ifs
      · rcases ends with rfl | ⟨more, rfl⟩
        · rfl
        · exact (if_pos rfl).trans (refused _ (.colon more))
      · exact refused rest ends.behind
    have address := nothing readIpv4Addr fun input behind => readIpv4Addr_behind behind
    have number := nothing (readNumber 16 4 65536 true) fun input behind => readNumber_none behind.stops.1
    rw [readGroups, address, number, ite_self]

/-- As many groups as there are, behind others. -/
theorem readGroups_more {limit : ℕ} (more : List U16) {groups : List U16} (some : groups ≠ []) {rest : List Char}
    (ends : Ends rest) {remaining : ℕ} (enough : more.length ≤ remaining) :
    readGroups limit remaining groups (groupDigits more ++ rest) = (groups ++ more, false, rest) := by
  induction more generalizing groups remaining with
  | nil =>
    rw [List.append_nil]
    exact readGroups_ends remaining groups ends
  | cons group more ih =>
    obtain ⟨remaining, rfl⟩ := Nat.exists_eq_succ_of_ne_zero (show remaining ≠ 0 by simp at enough; omega)
    have step := readGroups_group limit remaining groups group (groupDigits_behind more ends.behind)
    rw [separator, if_neg some] at step
    have onward := @ih (groups ++ [group]) (by simp) remaining (by simpa using enough)
    rw [List.append_assoc, List.singleton_append] at onward
    rw [← onward, ← step, groupDigits, List.flatMap_cons]
    simp only [List.append_assoc, List.cons_append, List.nil_append]
    rfl

/-- Groups are read from the text of all of them. -/
theorem readGroups_display (limit remaining : ℕ) (groups : List U16) {rest : List Char} (ends : Ends rest)
    (enough : groups.length ≤ remaining) :
    readGroups limit remaining [] ((displayGroups groups).toList ++ rest) = (groups, false, rest) := by
  cases groups with
  | nil => exact readGroups_ends remaining [] ends
  | cons group more =>
    obtain ⟨remaining, rfl⟩ := Nat.exists_eq_succ_of_ne_zero (show remaining ≠ 0 by simp at enough; omega)
    have step := readGroups_group limit remaining [] group (groupDigits_behind more ends.behind)
    rw [toList_displayGroups, List.append_assoc]
    exact step.trans (readGroups_more more (by simp) ends (by simpa using enough))

/-! ### The groups of an address -/

theorem ofGroups_take (address : Ipv6Addr) (count : ℕ) (few : count ≤ 8) :
    ofGroups ((List.range count).map fun index => address.extractLsb' (16 * (7 - index)) 16) =
      address >>> (16 * (8 - count)) := by
  induction count with
  | zero => exact (BitVec.ushiftRight_eq_zero (by decide)).symm
  | succ count ih =>
    have before := ih (by omega)
    rw [ofGroups] at before ⊢
    rw [List.range_succ, List.map_append, List.foldl_append, before]
    apply BitVec.eq_of_getLsbD_eq
    intro bit inside
    simp only [List.map_cons, List.map_nil, List.foldl_cons, List.foldl_nil, BitVec.getLsbD_or, BitVec.getLsbD_shiftLeft,
      BitVec.getLsbD_ushiftRight, BitVec.getLsbD_setWidth, BitVec.getLsbD_extractLsb', inside, decide_true,
      Bool.true_and]
    by_cases low : bit < 16
    · simp [low]
    · simp [low, show 16 * (8 - count) + (bit - 16) = 16 * (8 - (count + 1)) + bit by omega]

theorem ofGroups_segments (address : Ipv6Addr) : ofGroups (Ipv6Addr.segments address) = address :=
  (ofGroups_take address 8 (by decide)).trans (BitVec.ushiftRight_zero address)

theorem length_segments (address : Ipv6Addr) : (Ipv6Addr.segments address).length = 8 := rfl

/-- Every group of the run is zero. -/
def Zeros (groups : List U16) (span : ZeroSpan) : Prop :=
  ∀ index, span.start ≤ index → index < span.start + span.length → groups[index]? = some 0

theorem Zeros.none (groups : List U16) : Zeros groups ⟨0, 0⟩ :=
  fun index _ before => absurd before (Nat.not_lt_zero index)

/-- The run that is found is one of zeros. -/
theorem longestZeros_zeros {groups : List U16} (rest : List U16) {done : List U16} (whole : groups = done ++ rest)
    {longest current : ZeroSpan} (found : Zeros groups longest) (here : Zeros groups current)
    (latest : current.length = 0 ∨ current.start + current.length = done.length) :
    Zeros groups (longestZeros done.length longest current rest) := by
  induction rest generalizing done longest current with
  | nil => exact found
  | cons group rest ih =>
    have grown : (done ++ [group]).length = done.length + 1 := by simp
    have next : groups = done ++ [group] ++ rest := by rw [whole, List.append_assoc, List.singleton_append]
    rw [longestZeros]
    by_cases zero : group = 0
    · rw [if_pos zero, ← grown]
      subst zero
      -- The run that ends here is one longer, or starts here.
      have longer : Zeros groups ⟨if current.length = 0 then done.length else current.start, current.length + 1⟩ := by
        intro index after before
        dsimp only at after before
        by_cases last : index = done.length
        · rw [whole, last, List.getElem?_append_right (Nat.le_refl _), Nat.sub_self]
          rfl
        · split_ifs at after before with fresh
          · omega
          · exact here index after (by omega)
      have ending : (if current.length = 0 then done.length else current.start) + (current.length + 1) =
          (done ++ [(0 : U16)]).length := by
        split_ifs with fresh <;> omega
      refine ih next ?_ longer (.inr ending)
      dsimp only
      by_cases more : longest.length < current.length + 1
      · rw [if_pos more]
        exact longer
      · rw [if_neg more]
        exact found
    · rw [if_neg zero, ← grown]
      exact ih next found (fun index _ before => absurd before (Nat.not_lt_zero index)) (.inl rfl)

/-- The groups around a run of zeros, with as many zeros between them. -/
theorem Zeros.around {groups : List U16} {span : ZeroSpan} (zeros : Zeros groups span) (some : 0 < span.length) :
    span.start + span.length ≤ groups.length ∧
      groups.take span.start ++ List.replicate span.length 0 ++ groups.drop (span.start + span.length) = groups := by
  have within : span.start + span.length ≤ groups.length := by
    obtain ⟨inside, -⟩ := List.getElem?_eq_some_iff.mp (zeros (span.start + span.length - 1) (by omega) (by omega))
    omega
  refine ⟨within, ?_⟩
  have run : (groups.drop span.start).take span.length = List.replicate span.length 0 := by
    apply List.ext_getElem?
    intro index
    by_cases inside : index < span.length
    · rw [List.getElem?_take_of_lt inside, List.getElem?_drop, zeros _ (by omega) (by omega),
        List.getElem?_replicate_of_lt inside]
    · rw [List.getElem?_eq_none (by simp; omega), List.getElem?_eq_none (by simp; omega)]
  rw [← run, List.append_assoc, ← List.drop_drop, List.take_append_drop, List.take_append_drop]

/-- Eight groups are read as the address, and a run that was left out is filled with zeros. -/
theorem readIpv6Addr_groups (address : Ipv6Addr) :
    readIpv6Addr (displayGroups (Ipv6Addr.segments address)).toList = some (address, []) := by
  have read := readGroups_display 8 8 (Ipv6Addr.segments address) (.inl rfl) (by simp [length_segments])
  rw [List.append_nil] at read
  rw [readIpv6Addr, read]
  dsimp only
  rw [if_pos (length_segments address), ofGroups_segments]

/-- Groups on both sides of a run that was left out. -/
theorem readIpv6Addr_elided {input rest after : List Char} {head tail : List U16} {ipv4 : Bool}
    (first : readGroups 8 8 [] input = (head, false, ':' :: ':' :: rest)) (short : head.length ≠ 8)
    (second : readGroups (8 - (head.length + 1)) (8 - (head.length + 1)) [] rest = (tail, ipv4, after)) :
    readIpv6Addr input =
      some (ofGroups (head ++ List.replicate (8 - head.length - tail.length) 0 ++ tail), after) := by
  rw [readIpv6Addr, first]
  dsimp only
  rw [if_neg short, if_neg Bool.false_ne_true]
  simp only [second]

theorem readIpv6Addr_run {address : Ipv6Addr} {span : ZeroSpan} (zeros : Zeros (Ipv6Addr.segments address) span)
    (some : 1 < span.length) :
    readIpv6Addr ((displayGroups ((Ipv6Addr.segments address).take span.start)).toList ++ ':' :: ':' ::
      (displayGroups ((Ipv6Addr.segments address).drop (span.start + span.length))).toList) = .some (address, []) := by
  obtain ⟨within, whole⟩ := zeros.around (by omega)
  rw [length_segments] at within
  have head : ((Ipv6Addr.segments address).take span.start).length = span.start := by
    rw [List.length_take, length_segments]
    omega
  have tail : ((Ipv6Addr.segments address).drop (span.start + span.length)).length = 8 - (span.start + span.length) := by
    rw [List.length_drop, length_segments]
  have first := @readGroups_display 8 8 ((Ipv6Addr.segments address).take span.start)
    (':' :: ':' :: (displayGroups ((Ipv6Addr.segments address).drop (span.start + span.length))).toList)
    (.inr ⟨_, rfl⟩) (by omega)
  have second := readGroups_display (8 - (span.start + 1)) (8 - (span.start + 1))
    ((Ipv6Addr.segments address).drop (span.start + span.length)) (.inl rfl) (by omega)
  rw [List.append_nil] at second
  nth_rewrite 1 2 [← head] at second
  rw [readIpv6Addr_elided first (by omega) second, head, tail,
    show 8 - span.start - (8 - (span.start + span.length)) = span.length by omega, whole, ofGroups_segments]

/-- An address that maps an IPv4 address is five zero groups, one of ones, and that address. -/
theorem segments_mapped {address : Ipv6Addr} (mapped : address.extractLsb' 32 96 = 0xffff#96) :
    List.replicate 5 0 ++
        [0xffff#16, (address.extractLsb' 0 32).extractLsb' 16 16, (address.extractLsb' 0 32).extractLsb' 0 16] =
      Ipv6Addr.segments address := by
  have high (start : ℕ) (above : 32 ≤ start) (inside : start + 16 ≤ 128) :
      address.extractLsb' start 16 = (0xffff#96).extractLsb' (start - 32) 16 := by
    rw [← mapped]
    apply BitVec.eq_of_getLsbD_eq
    intro bit small
    simp only [BitVec.getLsbD_extractLsb']
    rw [decide_eq_true (show start - 32 + bit < 96 by omega), Bool.true_and,
      show 32 + (start - 32 + bit) = start + bit by omega]
  rw [BitVec.extractLsb'_extractLsb'_of_le (by decide), BitVec.extractLsb'_extractLsb'_of_le (by decide)]
  change _ = [address.extractLsb' 112 16, address.extractLsb' 96 16, address.extractLsb' 80 16, address.extractLsb' 64 16,
    address.extractLsb' 48 16, address.extractLsb' 32 16, address.extractLsb' 16 16, address.extractLsb' 0 16]
  rw [high 112 (by decide) (by decide), high 96 (by decide) (by decide), high 80 (by decide) (by decide),
    high 64 (by decide) (by decide), high 48 (by decide) (by decide), high 32 (by decide) (by decide)]
  rfl

theorem readIpv6Addr_mapped {address : Ipv6Addr} (mapped : address.extractLsb' 32 96 = 0xffff#96) :
    readIpv6Addr ("::ffff:" ++ Ipv4Addr.display (address.extractLsb' 0 32)).toList = some (address, []) := by
  have spelled : ("::ffff:" ++ Ipv4Addr.display (address.extractLsb' 0 32)).toList =
      ':' :: ':' :: (Nat.toDigits 16 (0xffff#16).toNat ++ ':' :: (Ipv4Addr.display (address.extractLsb' 0 32)).toList) := by
    rw [String.toList_append]
    rfl
  have group := readGroups_group 7 6 [] 0xffff#16
    (.colon (Ipv4Addr.display (address.extractLsb' 0 32)).toList)
  have last : readGroups 7 6 [0xffff#16] (':' :: (Ipv4Addr.display (address.extractLsb' 0 32)).toList) =
      ([0xffff#16, (address.extractLsb' 0 32).extractLsb' 16 16, (address.extractLsb' 0 32).extractLsb' 0 16],
        true, []) := by
    have read : readSeparator ':' 1 readIpv4Addr (':' :: (Ipv4Addr.display (address.extractLsb' 0 32)).toList) =
        some (address.extractLsb' 0 32, []) := readIpv4Addr_whole _
    rw [readGroups, List.length_singleton, if_pos (by decide), read]
    rfl
  have tail := group.trans last
  rw [separator, if_pos rfl, List.nil_append] at tail
  have whole := congrArg ofGroups (segments_mapped mapped)
  rw [ofGroups_segments] at whole
  rw [spelled, readIpv6Addr_elided (readGroups_ends 8 [] (.inr ⟨_, rfl⟩)) (by decide) tail]
  exact congrArg (fun read => some (read, [])) whole

theorem readIpv6Addr_display (address : Ipv6Addr) :
    readIpv6Addr (Ipv6Addr.display address).toList = some (address, []) := by
  rw [Ipv6Addr.display]
  dsimp only
  split_ifs with mapped run
  · exact readIpv6Addr_mapped mapped
  · have zeros : Zeros (Ipv6Addr.segments address) (longestZeros 0 ⟨0, 0⟩ ⟨0, 0⟩ (Ipv6Addr.segments address)) :=
      @longestZeros_zeros _ _ [] rfl ⟨0, 0⟩ ⟨0, 0⟩ (Zeros.none _) (Zeros.none _) (.inl rfl)
    rw [String.toList_append, String.toList_append, List.append_assoc]
    exact readIpv6Addr_run zeros run
  · exact readIpv6Addr_groups address

theorem parseIpv6Addr_display (address : Ipv6Addr) : parseIpv6Addr (Ipv6Addr.display address) = some address := by
  rw [parseIpv6Addr, readIpv6Addr_display]

/-- An IPv6 address is not taken for one of IPv4. -/
theorem readIpv4Addr_displayV6 (address : Ipv6Addr) : readIpv4Addr (Ipv6Addr.display address).toList = none := by
  have groups (some : List U16) {rest : List Char} (behind : Behind rest) :
      readIpv4Addr ((displayGroups some).toList ++ rest) = none := by
    cases some with
    | nil => exact readIpv4Addr_behind behind
    | cons group more =>
      have later := groupDigits_behind more behind
      rw [toList_displayGroups, List.append_assoc]
      exact readIpv4Addr_hex (isDigit_toDigits (by decide) (by decide) _) later.stops.2 later.plain
  rw [Ipv6Addr.display]
  dsimp only
  split_ifs
  · rw [String.toList_append]
    exact groups [] (.colon _)
  · rw [String.toList_append, String.toList_append, List.append_assoc]
    exact groups _ (.colon _)
  · rw [← List.append_nil (displayGroups _).toList]
    exact groups _ (fun _ none => by cases none)

theorem parseIpAddr_display (address : IpAddr) : parseIpAddr address.display = some address := by
  cases address with
  | v4 address => rw [parseIpAddr, IpAddr.display, readIpv4Addr_whole]
  | v6 address => rw [parseIpAddr, IpAddr.display, readIpv4Addr_displayV6, readIpv6Addr_display, Option.map_some]

end Netd.Model
