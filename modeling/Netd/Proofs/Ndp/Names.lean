import Mathlib.Data.List.Induction
import Mathlib.Data.List.TakeWhile
import Netd.Machine.Records
import Netd.Math.Letters
import Netd.Model.Dhcp6
import Netd.Proofs.Text.Utf8

/-! # Search domains and the names they are read from

On the wire a name is labels back to back and the zero of the root. The decoders of a search list walk
such names, join the labels of each by dots, and stop at the first name they do not accept. What they
return is read here off the wire grammar, and a returned text splits into the labels it was read from
unless one of these has a dot of its own.
-/

namespace Netd.Model.Ndp

/-! ## The wire grammar -/

/-- How long the label in front is, its length octet included. -/
def labelFront : Bytes → Option ℕ
  | [] => none
  | length :: rest => if length = 0 ∨ rest.length < length.toNat then none else some (length.toNat + 1)

/-- Labels: a length that is not zero, and so many octets. -/
def labelRecords : Records U8 where
  Whole record := ∃ length label, record = length :: label ∧ length ≠ 0 ∧ label.length = length.toNat
  front := labelFront
  ne_nil whole := by
    obtain ⟨length, label, rfl, _⟩ := whole
    exact List.cons_ne_nil _ _
  front_eq_some_iff {octets n} := by
    constructor
    · intro found
      cases octets with
      | nil => contradiction
      | cons length rest =>
        rw [labelFront] at found
        split_ifs at found with bad
        rw [not_or, not_lt] at bad
        have size : (rest.take length.toNat).length = length.toNat := by rw [List.length_take, Nat.min_eq_left bad.2]
        refine ⟨length :: rest.take length.toNat, rest.drop length.toNat, ⟨length, _, rfl, bad.1, size⟩, ?_, ?_⟩
        · rw [List.cons_append, List.take_append_drop]
        · rw [List.length_cons, size]
          exact (Option.some.inj found).symm
    · rintro ⟨_, rest, ⟨length, label, rfl, nonzero, size⟩, rfl, rfl⟩
      rw [List.cons_append, labelFront, if_neg, List.length_cons, size]
      rw [List.length_append]
      exact not_or.mpr ⟨nonzero, by omega⟩

theorem front_label {octets : Bytes} {n : ℕ} (found : labelRecords.front octets = some n) :
    ∃ length rest, octets = length :: rest ∧ length ≠ 0 ∧ length.toNat ≤ rest.length ∧ n = length.toNat + 1 := by
  obtain ⟨_, rest, ⟨length, label, rfl, nonzero, size⟩, rfl, rfl⟩ := labelRecords.front_eq_some_iff.mp found
  refine ⟨length, label ++ rest, rfl, nonzero, ?_, ?_⟩
  · rw [List.length_append]
    omega
  · rw [List.length_cons, size]

theorem front_short {length : U8} {rest : Bytes} (none : labelRecords.front (length :: rest) = none)
    (nonzero : length ≠ 0) : rest.length < length.toNat := by
  change labelFront (length :: rest) = Option.none at none
  rw [labelFront] at none
  split_ifs at none with bad
  exact bad.resolve_left nonzero

theorem front_root (rest : Bytes) : labelRecords.front (0 :: rest) = none := by
  change labelFront (0 :: rest) = none
  rw [labelFront, if_pos (Or.inl rfl)]

/-- How long the name in front is: its labels, and the zero of the root behind them. -/
def nameFront (octets : Bytes) : Option ℕ :=
  if (labelRecords.split octets).2.head? = some 0 then some ((labelRecords.split octets).1.flatten.length + 1)
  else none

/-- Names: labels, and the zero of the root. -/
def nameRecords : Records U8 where
  Whole record := ∃ labels : List Bytes, (∀ label ∈ labels, labelRecords.Whole label) ∧ record = labels.flatten ++ [0]
  front := nameFront
  ne_nil whole := by
    obtain ⟨labels, _, rfl⟩ := whole
    exact List.append_ne_nil_of_right_ne_nil _ (List.cons_ne_nil _ _)
  front_eq_some_iff {octets n} := by
    constructor
    · intro found
      rw [nameFront] at found
      split_ifs at found with root
      obtain ⟨rest, tail⟩ := List.head?_eq_some_iff.mp root
      refine ⟨(labelRecords.split octets).1.flatten ++ [0], rest,
        ⟨_, labelRecords.split_whole octets, rfl⟩, ?_, ?_⟩
      · rw [List.append_assoc, List.singleton_append, ← tail, labelRecords.split_flatten]
      · rw [List.length_append, List.length_singleton]
        exact (Option.some.inj found).symm
    · rintro ⟨_, rest, ⟨labels, whole, rfl⟩, rfl, rfl⟩
      have split := Records.split_append whole (0 :: rest)
      rw [Records.split_none (front_root rest), List.append_nil] at split
      dsimp only at split
      rw [List.append_assoc, List.singleton_append, nameFront, split, List.length_append, List.length_singleton]
      exact if_pos rfl

/-- The labels in front, without their lengths. -/
def labelsOf (octets : Bytes) : List Bytes := (labelRecords.split octets).1.map List.tail

/-- Every name that stands in a region, by its labels. -/
def regionNames (octets : Bytes) : List (List Bytes) := (nameRecords.split octets).1.map labelsOf

/-! ## Texts -/

/-- The text of a label, in lower case. -/
def labelText (label : Bytes) : String :=
  String.ofList (label.map fun octet => (Char.ofNat octet.toNat).toLower)

/-- The text of a name. -/
def dotted (labels : List Bytes) : String := ".".intercalate (labels.map labelText)

/-- One to sixty-three graphic characters. -/
def isLabel (label : Bytes) : Bool :=
  decide (1 ≤ label.length) && decide (label.length ≤ 63) && label.all isAsciiGraphic

/-- A name the decoders take over. -/
def acceptable (labels : List Bytes) : Bool := labels.all isLabel && decide ((dotted labels).length ≤ 253)

theorem isLabel_iff {label : Bytes} :
    isLabel label = true ↔ 1 ≤ label.length ∧ label.length ≤ 63 ∧ label.all isAsciiGraphic = true := by
  rw [isLabel, Bool.and_eq_true, Bool.and_eq_true, decide_eq_true_eq, decide_eq_true_eq, and_assoc]

theorem graphic_bounds {octet : U8} (graphic : isAsciiGraphic octet = true) :
    0x21 ≤ octet.toNat ∧ octet.toNat ≤ 0x7e := by
  rw [isAsciiGraphic, Bool.and_eq_true, decide_eq_true_eq, decide_eq_true_eq] at graphic
  exact graphic

theorem toNat_ofOctet {octet : U8} (low : octet.toNat ≤ 0x7e) : (Char.ofNat octet.toNat).toNat = octet.toNat := by
  rw [Char.ofNat, dif_pos (Or.inl (by omega))]
  rfl

theorem utf8Chunks_graphic {octet : U8} (graphic : isAsciiGraphic octet = true) (rest : Bytes) :
    utf8Chunks (octet :: rest) = some (Char.ofNat octet.toNat) :: utf8Chunks rest := by
  have low := (graphic_bounds graphic).2
  have width : utf8CharWidth octet = 1 := by rw [utf8CharWidth, if_pos (by omega)]
  have next : utf8Next octet rest = (some (Char.ofNat octet.toNat), rest) := by simp only [utf8Next, width]
  rw [utf8Chunks, next]

/-- Graphic octets are the text they spell. -/
theorem lowercase_graphic {label : Bytes} (graphic : label.all isAsciiGraphic = true) :
    toAsciiLowercase (fromUtf8Lossy label) = labelText label := by
  have chunks : utf8Chunks label = label.map fun octet => some (Char.ofNat octet.toNat) := by
    induction label with
    | nil =>
      rw [utf8Chunks]
      rfl
    | cons octet rest ih =>
      rw [List.all_cons, Bool.and_eq_true] at graphic
      rw [utf8Chunks_graphic graphic.1, ih graphic.2, List.map_cons]
  rw [fromUtf8Lossy, chunks, List.map_map, toAsciiLowercase, labelText, ← String.toList_inj, String.toList_map,
    String.toList_ofList, String.toList_ofList, List.map_map]
  rfl

theorem utf8ByteSize_labelText {label : Bytes} (graphic : label.all isAsciiGraphic = true) :
    (labelText label).utf8ByteSize = label.length := by
  rw [utf8ByteSize_eq, labelText, String.toList_ofList, List.map_map]
  induction label with
  | nil => rfl
  | cons octet rest ih =>
    rw [List.all_cons, Bool.and_eq_true] at graphic
    have bounds := graphic_bounds graphic.1
    have same := toNat_ofOctet bounds.2
    have small : ((Char.ofNat octet.toNat).toLower).utf8Size = 1 := by
      rw [Char.utf8Size_eq_one_iff, UInt32.le_iff_toNat_le]
      change ((Char.ofNat octet.toNat).toLower).toNat ≤ 127
      rw [Letters.toNat_toLower, same]
      split_ifs <;> omega
    rw [List.map_cons, List.sum_cons, ih graphic.2, List.length_cons, Function.comp_apply, small, Nat.add_comm]

theorem length_labelText (label : Bytes) : (labelText label).length = label.length := by
  rw [labelText, String.length_ofList, List.length_map]

theorem dotted_snoc (labels : List Bytes) (label : Bytes) :
    dotted (labels ++ [label]) = if labels = [] then labelText label else dotted labels ++ "." ++ labelText label := by
  rw [dotted, List.map_append, List.map_singleton]
  split_ifs with first
  · rw [first, List.map_nil, List.nil_append, String.intercalate_singleton]
  · rw [String.intercalate_append_of_ne_nil (by simpa using first) (List.cons_ne_nil _ _),
      String.intercalate_singleton]
    rfl

theorem length_dotted_snoc (labels : List Bytes) (label : Bytes) :
    (dotted (labels ++ [label])).length =
      if labels = [] then label.length else (dotted labels).length + label.length + 1 := by
  rw [dotted_snoc]
  split_ifs
  · exact length_labelText label
  · rw [String.length_append, String.length_append, length_labelText]
    change (dotted labels).length + 1 + label.length = _
    omega

/-- A name of graphic characters has as many octets as characters. -/
theorem utf8ByteSize_dotted {labels : List Bytes} (all : labels.all isLabel = true) :
    (dotted labels).utf8ByteSize = (dotted labels).length := by
  induction labels using List.reverseRecOn with
  | nil => rfl
  | append_singleton labels label ih =>
    rw [List.all_append, Bool.and_eq_true, List.all_cons, Bool.and_eq_true] at all
    have graphic := (isLabel_iff.mp all.2.1).2.2
    rw [length_dotted_snoc, dotted_snoc]
    split_ifs
    · exact utf8ByteSize_labelText graphic
    · rw [String.utf8ByteSize_append, String.utf8ByteSize_append, ih all.1, utf8ByteSize_labelText graphic]
      change (dotted labels).length + 1 + label.length = _
      omega

theorem dotted_eq_empty_iff {labels : List Bytes} (all : labels.all isLabel = true) :
    (dotted labels).isEmpty = true ↔ labels = [] := by
  constructor
  · intro empty
    cases labels using List.reverseRecOn with
    | nil => rfl
    | append_singleton labels label =>
      rw [List.all_append, Bool.and_eq_true, List.all_cons, Bool.and_eq_true] at all
      have nonempty := (isLabel_iff.mp all.2.1).1
      have size := length_dotted_snoc labels label
      rw [String.isEmpty_iff.mp empty, String.length_empty] at size
      split_ifs at size
      all_goals omega
  · rintro rfl
    rfl

theorem acceptable_iff {labels : List Bytes} :
    acceptable labels = true ↔ labels.all isLabel = true ∧ (dotted labels).length ≤ 253 := by
  rw [acceptable, Bool.and_eq_true, decide_eq_true_eq]

theorem acceptable_left {labels more : List Bytes} (accepted : acceptable (labels ++ more) = true) :
    acceptable labels = true := by
  induction more using List.reverseRecOn with
  | nil => rwa [List.append_nil] at accepted
  | append_singleton more label ih =>
    apply ih
    rw [← List.append_assoc, acceptable_iff, length_dotted_snoc, List.all_append, Bool.and_eq_true] at accepted
    refine acceptable_iff.mpr ⟨accepted.1.1, ?_⟩
    split_ifs at accepted with first
    · rw [first]
      decide
    · omega

/-- What the decoders check of one label more. -/
theorem acceptable_snoc {labels : List Bytes} {label : Bytes} (accepted : acceptable labels = true)
    (nonempty : 1 ≤ label.length) :
    acceptable (labels ++ [label]) = true ↔
      (label.length ≤ 63 ∧ (dotted labels).utf8ByteSize + label.length + 1 ≤ 253) ∧
        label.all isAsciiGraphic = true := by
  obtain ⟨all, fits⟩ := acceptable_iff.mp accepted
  have same : label.length ≤ 63 → ((dotted (labels ++ [label])).length ≤ 253 ↔
      (dotted labels).length + label.length + 1 ≤ 253) := by
    intro short
    rw [length_dotted_snoc]
    split_ifs with first
    · have none : (dotted labels).length = 0 := by
        rw [first]
        rfl
      omega
    · omega
  rw [acceptable_iff, List.all_append, all, Bool.true_and, List.all_cons, List.all_nil, Bool.and_true, isLabel_iff,
    utf8ByteSize_dotted all]
  constructor
  · rintro ⟨⟨_, short, graphic⟩, within⟩
    exact ⟨⟨short, (same short).mp within⟩, graphic⟩
  · rintro ⟨⟨short, within⟩, graphic⟩
    exact ⟨⟨nonempty, short, graphic⟩, (same short).mpr within⟩

/-! ## The walk -/

theorem labelsOf_root (rest : Bytes) : labelsOf (0 :: rest) = [] := by
  rw [labelsOf, Records.split_none (front_root rest)]
  rfl

theorem labelsOf_label {octets : Bytes} {n : ℕ} (found : labelRecords.front octets = some n) :
    labelsOf octets = (octets.take n).tail :: labelsOf (octets.drop n) := by
  rw [labelsOf, Records.split_some found]
  rfl

theorem nameFront_root (rest : Bytes) : nameFront (0 :: rest) = some 1 := by
  rw [nameFront, Records.split_none (front_root rest)]
  exact if_pos rfl

theorem nameFront_none {octets : Bytes} (none : labelRecords.front octets = none)
    (inside : octets.head? ≠ some 0) : nameFront octets = Option.none := by
  rw [nameFront, Records.split_none none]
  exact if_neg inside

theorem nameFront_label {octets : Bytes} {n : ℕ} (found : labelRecords.front octets = some n) :
    nameFront octets = (nameFront (octets.drop n)).map (n + ·) := by
  have size : (octets.take n).length = n := by
    rw [List.length_take, Nat.min_eq_left (labelRecords.le_length found)]
  rw [nameFront, nameFront, Records.split_some found]
  dsimp only
  split_ifs
  · rw [List.flatten_cons, List.length_append, size, Option.map_some, Nat.add_assoc]
  · rfl

/-- The name in front is taken over if there is one, and it is acceptable behind the labels already read. -/
theorem domainName_eq (octets : Bytes) {earlier : List Bytes} (accepted : acceptable earlier = true) :
    domainName octets (dotted earlier) = (nameFront octets).bind fun n =>
      if acceptable (earlier ++ labelsOf octets) then some (dotted (earlier ++ labelsOf octets), octets.drop n)
      else none := by
  fun_induction labelRecords.split octets generalizing earlier with
  | case1 octets none =>
    cases octets with
    | nil =>
      rw [domainName, nameFront_none none (by simp)]
      rfl
    | cons length rest =>
      by_cases root : length = 0
      · subst root
        rw [domainName, if_pos rfl, nameFront_root, labelsOf_root, List.append_nil, Option.bind_some, if_pos accepted]
        rfl
      · rw [domainName, if_neg root, if_pos (.inr (.inl (front_short none root))),
          nameFront_none none (by simpa using root)]
        rfl
  | case2 octets n found more =>
    rename_i ih
    obtain ⟨length, rest, rfl, nonzero, fits, rfl⟩ := front_label found
    rw [List.drop_succ_cons] at ih
    have size : (rest.take length.toNat).length = length.toNat := by rw [List.length_take, Nat.min_eq_left fits]
    have positive : 0 < length.toNat := Nat.pos_of_ne_zero fun zero => nonzero (BitVec.eq_of_toNat_eq zero)
    have snoc := acceptable_snoc accepted (show 1 ≤ (rest.take length.toNat).length by omega)
    rw [size] at snoc
    rw [domainName, if_neg nonzero, nameFront_label found, labelsOf_label found, List.take_succ_cons, List.tail_cons,
      List.drop_succ_cons, ← List.singleton_append (l := labelsOf _), ← List.append_assoc]
    by_cases next : acceptable (earlier ++ [rest.take length.toNat]) = true
    · obtain ⟨⟨short, within⟩, graphic⟩ := snoc.mp next
      have name : (if (dotted earlier).isEmpty then dotted earlier else dotted earlier ++ ".") ++
          toAsciiLowercase (fromUtf8Lossy (rest.take length.toNat)) = dotted (earlier ++ [rest.take length.toNat]) := by
        rw [lowercase_graphic graphic, dotted_snoc]
        split_ifs with empty first first
        · rw [first]
          exact String.empty_append
        · exact absurd ((dotted_eq_empty_iff (acceptable_iff.mp accepted).1).mp empty) first
        · exact absurd ((dotted_eq_empty_iff (acceptable_iff.mp accepted).1).mpr first) empty
        · rfl
      rw [if_neg (by omega)]
      dsimp only
      rw [graphic, Bool.not_true, if_neg Bool.false_ne_true, name, ih next, Option.bind_map]
      refine congrArg _ (funext fun n => ?_)
      dsimp only [Function.comp_apply]
      rw [Nat.add_right_comm, List.drop_succ_cons, List.drop_drop]
    · have refused : acceptable (earlier ++ [rest.take length.toNat] ++ labelsOf (rest.drop length.toNat)) = false :=
        Bool.eq_false_iff.mpr fun all => next (acceptable_left all)
      rw [refused, Option.bind_eq_none_iff.mpr fun _ _ => if_neg Bool.false_ne_true]
      by_cases bad : 63 < length.toNat ∨ rest.length < length.toNat ∨
          253 < (dotted earlier).utf8ByteSize + length.toNat + 1
      · exact if_pos bad
      · have foreign : (rest.take length.toNat).all isAsciiGraphic = false :=
          Bool.eq_false_iff.mpr fun graphic => next (snoc.mpr ⟨by omega, graphic⟩)
        rw [if_neg bad]
        dsimp only
        rw [foreign, Bool.not_false, if_pos rfl]

theorem labelsOf_wire {labels : List Bytes} (whole : ∀ label ∈ labels, labelRecords.Whole label) (rest : Bytes) :
    labelsOf (labels.flatten ++ 0 :: rest) = labels.map List.tail := by
  rw [labelsOf, Records.split_append whole, Records.split_none (front_root rest), List.append_nil]

theorem regionNames_none {octets : Bytes} (none : nameFront octets = none) : regionNames octets = [] := by
  rw [regionNames, Records.split_none none]
  rfl

theorem regionNames_some {octets : Bytes} {n : ℕ} (found : nameFront octets = some n) :
    regionNames octets = labelsOf octets :: regionNames (octets.drop n) := by
  obtain ⟨_, rest, ⟨labels, whole, rfl⟩, rfl, rfl⟩ := nameRecords.front_eq_some_iff.mp found
  rw [regionNames, Records.split_some found, List.map_cons, List.take_left, labelsOf_wire whole, List.append_assoc,
    List.singleton_append, labelsOf_wire whole]
  rfl

theorem regionNames_zeros (zeros : ℕ) : regionNames (List.replicate zeros 0) = List.replicate zeros [] := by
  induction zeros with
  | zero => exact regionNames_none (nameFront_none rfl (by simp))
  | succ zeros ih =>
    rw [List.replicate_succ, regionNames_some (nameFront_root _), labelsOf_root, List.drop_one, List.tail_cons, ih,
      List.replicate_succ]

/-- The names that are taken over: up to the first that is not acceptable, those that have a label, sixteen at most. -/
def acceptedNames (octets : Bytes) : List (List Bytes) :=
  (((regionNames octets).takeWhile acceptable).filter fun labels => !labels.isEmpty).take maxDomains

theorem domainName_none {octets : Bytes} (none : domainName octets "" = none) :
    (regionNames octets).takeWhile acceptable = [] := by
  have start := domainName_eq octets (show acceptable [] = true from rfl)
  cases found : nameFront octets with
  | none => rw [regionNames_none found, List.takeWhile_nil]
  | some n =>
    change domainName octets "" = _ at start
    rw [found, Option.bind_some, none, List.nil_append] at start
    split_ifs at start with refused
    rw [regionNames_some found, List.takeWhile_cons_of_neg refused]

theorem domainName_some {octets : Bytes} {name : String} {rest : Bytes}
    (read : domainName octets "" = some (name, rest)) :
    (regionNames octets).takeWhile acceptable = labelsOf octets :: (regionNames rest).takeWhile acceptable ∧
      name = dotted (labelsOf octets) ∧ (labelsOf octets).all isLabel = true := by
  have start := domainName_eq octets (show acceptable [] = true from rfl)
  change domainName octets "" = _ at start
  rw [read] at start
  obtain ⟨n, found, taken⟩ := Option.bind_eq_some_iff.mp start.symm
  rw [List.nil_append] at taken
  split_ifs at taken with accepted
  cases taken
  rw [regionNames_some found, List.takeWhile_cons_of_pos accepted]
  exact ⟨rfl, rfl, (acceptable_iff.mp accepted).1⟩

/-- One name more, which counts unless it is the root. -/
theorem names_next {octets : Bytes} {names : List String} (room : names.length < maxDomains)
    (all : (labelsOf octets).all isLabel = true) (later : List (List Bytes)) :
    names ++ (((labelsOf octets :: later).filter fun labels => !labels.isEmpty).take
        (maxDomains - names.length)).map dotted =
      (if (dotted (labelsOf octets)).isEmpty then names else names ++ [dotted (labelsOf octets)]) ++
        ((later.filter fun labels => !labels.isEmpty).take (maxDomains -
          (if (dotted (labelsOf octets)).isEmpty then names else names ++ [dotted (labelsOf octets)]).length)).map
            dotted := by
  have empty := dotted_eq_empty_iff all
  by_cases root : labelsOf octets = []
  · rw [if_pos (empty.mpr root), List.filter_cons_of_neg (by simp [root])]
  · obtain ⟨left, count⟩ : ∃ left, maxDomains - names.length = left + 1 := ⟨maxDomains - names.length - 1, by omega⟩
    rw [if_neg (fun there => root (empty.mp there)), List.filter_cons_of_pos (by simp [root]), count,
      List.take_succ_cons, List.map_cons, List.length_append, List.length_singleton, Nat.sub_add_eq, count,
      Nat.add_sub_cancel, List.append_assoc, List.singleton_append]

/-- The names of a region that are taken over when others were read before. -/
theorem domainNames_eq (octets : Bytes) (names : List String) :
    domainNames octets names = names ++ ((((regionNames octets).takeWhile acceptable).filter fun labels =>
      !labels.isEmpty).take (maxDomains - names.length)).map dotted := by
  fun_induction domainNames octets names with
  | case1 octets names room none =>
    rw [domainName_none none]
    simp
  | case2 octets names room name rest read names' zeros =>
    obtain ⟨walked, rfl, all⟩ := domainName_some read
    have padding : rest = List.replicate rest.length 0 :=
      List.eq_replicate_iff.mpr ⟨rfl, fun octet member => eq_of_beq (List.all_eq_true.mp zeros octet member)⟩
    have roots : ((regionNames rest).takeWhile acceptable).filter (fun labels => !labels.isEmpty) = [] := by
      rw [padding, regionNames_zeros]
      refine List.filter_eq_nil_iff.mpr fun labels member => ?_
      rw [List.eq_of_mem_replicate (List.takeWhile_subset _ member)]
      simp
    rw [walked, names_next room.2 all, roots, List.take_nil, List.map_nil, List.append_nil]
    rfl
  | case3 octets names room name rest read names' more ih =>
    obtain ⟨walked, rfl, all⟩ := domainName_some read
    rw [walked, names_next room.2 all]
    exact ih
  | case4 octets names full =>
    rw [not_and_or, not_lt] at full
    rcases full with empty | many
    · have nothing : octets = [] := by simpa using empty
      rw [nothing, regionNames_none (nameFront_none rfl (by simp))]
      simp
    · rw [Nat.sub_eq_zero_of_le many, List.take_zero, List.map_nil, List.append_nil]

/-- The decoders return the names they take over, dotted. -/
theorem domainList_eq (octets : Bytes) : domainList octets = (acceptedNames octets).map dotted := by
  rw [domainList, domainNames_eq]
  rfl

/-! ## Names and their parts -/

/-- A text that is the name of some labels: its parts between dots are the labels, in lower case. -/
structure NameOf (labels : List Bytes) (name : String) : Prop where
  length : name.length ≤ 253
  parts : (name.toList.splitOn '.').map String.ofList = labels.map labelText
  labels : ∀ label ∈ labels, 1 ≤ label.length ∧ label.length ≤ 63 ∧ ∀ octet ∈ label, isAsciiGraphic octet = true

/-- Texts that are, one by one, the names a region begins with, the root apart. -/
def RealNames (octets : Bytes) (names : List String) : Prop :=
  List.Forall₂ NameOf (((regionNames octets).filter fun labels => !labels.isEmpty).take names.length) names

/-- No label of a name that is taken over has a dot of its own. -/
def Undotted (octets : Bytes) : Prop := ∀ labels ∈ acceptedNames octets, ∀ label ∈ labels, 0x2e ∉ label

theorem not_mem_of_mem_splitOn {α : Type} [DecidableEq α] {a : α} {items part : List α}
    (member : part ∈ items.splitOn a) : a ∉ part := by
  induction items generalizing part with
  | nil =>
    rw [List.splitOn_nil, List.mem_singleton] at member
    rw [member]
    exact List.not_mem_nil
  | cons item rest ih =>
    rw [List.splitOn_cons_eq_if_modifyHead] at member
    split_ifs at member with same
    · rcases List.mem_cons.mp member with rfl | later
      · exact List.not_mem_nil
      · exact ih later
    · obtain ⟨first, others, parts⟩ := List.exists_cons_of_ne_nil (List.splitOn_ne_nil a rest)
      rw [parts] at member ih
      rcases List.mem_cons.mp member with rfl | later
      · have here := ih List.mem_cons_self
        simp only [List.mem_cons, not_or]
        exact ⟨fun equal => same (beq_iff_eq.mpr equal.symm), here⟩
      · exact ih (List.mem_cons_of_mem _ later)

theorem dot_mem_labelText {label : Bytes} (graphic : label.all isAsciiGraphic = true) :
    '.' ∈ (labelText label).toList ↔ 0x2e ∈ label := by
  rw [labelText, String.toList_ofList, List.mem_map]
  constructor
  · rintro ⟨octet, member, lower⟩
    have same := (Letters.toLower_eq_symbol (by decide)).mp lower
    have value := toNat_ofOctet (graphic_bounds (List.all_eq_true.mp graphic octet member)).2
    rw [same] at value
    obtain rfl : 0x2e = octet := BitVec.eq_of_toNat_eq value
    exact member
  · intro member
    exact ⟨0x2e, member, rfl⟩

/-- An accepted name splits into its labels if none of them has a dot. -/
theorem nameOf_dotted_iff {labels : List Bytes} (accepted : acceptable labels = true) (some : labels ≠ []) :
    NameOf labels (dotted labels) ↔ ∀ label ∈ labels, 0x2e ∉ label := by
  obtain ⟨all, within⟩ := acceptable_iff.mp accepted
  have each (label : Bytes) (member : label ∈ labels) := isLabel_iff.mp (List.all_eq_true.mp all label member)
  constructor
  · intro name label member dot
    have part : labelText label ∈ ((dotted labels).toList.splitOn '.').map String.ofList := by
      rw [name.parts]
      exact List.mem_map_of_mem member
    obtain ⟨chars, among, text⟩ := List.mem_map.mp part
    apply not_mem_of_mem_splitOn among
    rw [← String.toList_ofList (l := chars), text]
    exact (dot_mem_labelText (each label member).2.2).mpr dot
  · intro undotted
    refine ⟨within, ?_, fun label member => ?_⟩
    · rw [dotted, String.toList_intercalate, List.map_map]
      change (['.'].intercalate (labels.map (String.toList ∘ labelText)) |>.splitOn '.').map String.ofList = _
      rw [List.splitOn_intercalate, List.map_map]
      · exact List.map_congr_left fun label _ => String.ofList_toList
      · intro part among
        obtain ⟨label, member, rfl⟩ := List.mem_map.mp among
        exact fun dot => undotted label member ((dot_mem_labelText (each label member).2.2).mp dot)
      · simpa using some
    · exact ⟨(each label member).1, (each label member).2.1, List.all_eq_true.mp (each label member).2.2⟩

/-- The names taken over are the first of the region that have a label. -/
theorem acceptedNames_take (octets : Bytes) :
    ((regionNames octets).filter fun labels => !labels.isEmpty).take (acceptedNames octets).length =
      acceptedNames octets := by
  have within : acceptedNames octets <+: (regionNames octets).filter fun labels => !labels.isEmpty :=
    (List.take_prefix _ _).trans ((List.takeWhile_prefix acceptable).filter _)
  exact (List.prefix_iff_eq_take.mp within).symm

theorem acceptedNames_acceptable {octets : Bytes} {labels : List Bytes} (member : labels ∈ acceptedNames octets) :
    acceptable labels = true ∧ labels ≠ [] := by
  obtain ⟨among, nonempty⟩ := List.mem_filter.mp (List.mem_of_mem_take member)
  exact ⟨List.all_eq_true.mp List.all_takeWhile labels among, by simpa using nonempty⟩

/-- The list is real when no label has a dot of its own, and only then. -/
theorem realNames_iff (octets : Bytes) : RealNames octets (domainList octets) ↔ Undotted octets := by
  rw [RealNames, domainList_eq, List.length_map, acceptedNames_take, List.forall₂_map_right_iff,
    List.forall₂_same]
  exact forall₂_congr fun labels member =>
    nameOf_dotted_iff (acceptedNames_acceptable member).1 (acceptedNames_acceptable member).2

/-! ## Names put on the wire -/

/-- A domain name as a text: at most 253 characters, in lower-case graphic parts of one to sixty-three. -/
def IsName (name : String) : Prop :=
  name.length ≤ 253 ∧ ∀ part ∈ name.toList.splitOn '.', 1 ≤ part.length ∧ part.length ≤ 63 ∧
    ∀ c ∈ part, 0x21 ≤ c.toNat ∧ c.toNat ≤ 0x7e ∧ c.toLower = c

/-- The octets of a part. -/
def partOctets (part : List Char) : Bytes := part.map fun c => BitVec.ofNat 8 c.toNat

/-- A part behind its length. -/
def encodePart (part : List Char) : Bytes := BitVec.ofNat 8 part.length :: partOctets part

/-- A name on the wire. -/
def encodeName (name : String) : Bytes := (name.toList.splitOn '.').flatMap encodePart ++ [0]

section Encoding

variable {name : String} (isName : IsName name)

include isName

theorem whole_encodePart {part : List Char} (member : part ∈ name.toList.splitOn '.') :
    labelRecords.Whole (encodePart part) := by
  obtain ⟨nonempty, short, _⟩ := isName.2 part member
  refine ⟨_, _, rfl, ?_, ?_⟩
  · intro zero
    have value := congrArg BitVec.toNat zero
    rw [BitVec.toNat_ofNat, Nat.mod_eq_of_lt (by omega)] at value
    change part.length = 0 at value
    omega
  · rw [partOctets, List.length_map, BitVec.toNat_ofNat, Nat.mod_eq_of_lt (by omega)]

theorem whole_encodeName : nameRecords.Whole (encodeName name) := by
  refine ⟨(name.toList.splitOn '.').map encodePart, ?_, by rw [encodeName, List.flatMap_def]⟩
  intro label member
  obtain ⟨part, among, rfl⟩ := List.mem_map.mp member
  exact whole_encodePart isName among

theorem labelsOf_encodeName : labelsOf (encodeName name) = (name.toList.splitOn '.').map partOctets := by
  have whole : ∀ label ∈ (name.toList.splitOn '.').map encodePart, labelRecords.Whole label := by
    intro label member
    obtain ⟨part, among, rfl⟩ := List.mem_map.mp member
    exact whole_encodePart isName among
  rw [encodeName, List.flatMap_def, labelsOf_wire whole, List.map_map]
  rfl

theorem labelText_partOctets {part : List Char} (member : part ∈ name.toList.splitOn '.') :
    labelText (partOctets part) = String.ofList part := by
  rw [labelText, partOctets, List.map_map]
  refine congrArg String.ofList ((List.map_congr_left fun c among => ?_).trans (List.map_id part))
  obtain ⟨_, low, lower⟩ := (isName.2 part member).2.2 c among
  have value : (BitVec.ofNat 8 c.toNat).toNat = c.toNat := by
    rw [BitVec.toNat_ofNat, Nat.mod_eq_of_lt (by omega)]
  rw [Function.comp_apply, value, Char.ofNat_toNat, lower]
  rfl

theorem dotted_encodeName : dotted (labelsOf (encodeName name)) = name := by
  have texts : (labelsOf (encodeName name)).map labelText = (name.toList.splitOn '.').map String.ofList := by
    rw [labelsOf_encodeName isName, List.map_map]
    exact List.map_congr_left fun part member => labelText_partOctets isName member
  rw [dotted, texts, ← String.toList_inj, String.toList_intercalate, List.map_map]
  change ['.'].intercalate ((name.toList.splitOn '.').map fun part => (String.ofList part).toList) = _
  simp only [String.toList_ofList, List.map_id']
  exact List.intercalate_splitOn '.'

theorem acceptable_encodeName : acceptable (labelsOf (encodeName name)) = true := by
  refine acceptable_iff.mpr ⟨List.all_eq_true.mpr fun label member => ?_, ?_⟩
  · rw [labelsOf_encodeName isName] at member
    obtain ⟨part, among, rfl⟩ := List.mem_map.mp member
    obtain ⟨nonempty, short, graphic⟩ := isName.2 part among
    refine isLabel_iff.mpr ⟨?_, ?_, List.all_eq_true.mpr fun octet inside => ?_⟩
    · rwa [partOctets, List.length_map]
    · rwa [partOctets, List.length_map]
    · obtain ⟨c, there, rfl⟩ := List.mem_map.mp inside
      obtain ⟨high, low, _⟩ := graphic c there
      have value : (BitVec.ofNat 8 c.toNat).toNat = c.toNat := by
        rw [BitVec.toNat_ofNat, Nat.mod_eq_of_lt (by omega)]
      rw [isAsciiGraphic, Bool.and_eq_true, decide_eq_true_eq, decide_eq_true_eq]
      change 0x21 ≤ (BitVec.ofNat 8 c.toNat).toNat ∧ (BitVec.ofNat 8 c.toNat).toNat ≤ 0x7e
      omega
  · rw [dotted_encodeName isName]
    exact isName.1

end Encoding

/-- Names put on the wire are read back, whatever padding follows them. -/
theorem domainList_encodeName {names : List String} (few : names.length ≤ maxDomains)
    (real : ∀ name ∈ names, IsName name) (zeros : ℕ) :
    domainList (names.flatMap encodeName ++ List.replicate zeros 0) = names := by
  have whole : ∀ record ∈ names.map encodeName, nameRecords.Whole record := by
    intro record member
    obtain ⟨name, among, rfl⟩ := List.mem_map.mp member
    exact whole_encodeName (real name among)
  have region : regionNames (names.flatMap encodeName ++ List.replicate zeros 0) =
      (names.map fun name => labelsOf (encodeName name)) ++ List.replicate zeros [] := by
    rw [List.flatMap_def, regionNames, Records.split_append whole, List.map_append, List.map_map]
    exact congrArg _ (regionNames_zeros zeros)
  have accepted : acceptedNames (names.flatMap encodeName ++ List.replicate zeros 0) =
      names.map fun name => labelsOf (encodeName name) := by
    rw [acceptedNames, region, List.takeWhile_eq_self_iff.mpr, List.filter_append, List.filter_eq_self.mpr,
      List.filter_eq_nil_iff.mpr, List.append_nil, List.take_of_length_le]
    · rwa [List.length_map]
    · intro labels member
      rw [List.eq_of_mem_replicate member]
      simp
    · intro labels member
      obtain ⟨name, among, rfl⟩ := List.mem_map.mp member
      rw [labelsOf_encodeName (real name among), List.isEmpty_map]
      simp
    · intro labels member
      rcases List.mem_append.mp member with named | root
      · obtain ⟨name, among, rfl⟩ := List.mem_map.mp named
        exact acceptable_encodeName (real name among)
      · rw [List.eq_of_mem_replicate root]
        rfl
  rw [domainList_eq, accepted, List.map_map]
  exact (List.map_congr_left fun name member => dotted_encodeName (real name member)).trans (List.map_id names)

/-- What both decoders return are the names of the region, part by part, exactly when no label that is taken over
has a dot of its own; and names put on the wire are read back. -/
theorem search_domains_real (octets : Bytes) :
    (RealNames octets (domainList octets) ∧ RealNames octets (Dhcp6.domainList octets) ↔ Undotted octets) ∧
      ∀ names : List String, names.length ≤ maxDomains → (∀ name ∈ names, IsName name) → ∀ zeros : ℕ,
        domainList (names.flatMap encodeName ++ List.replicate zeros 0) = names ∧
          Dhcp6.domainList (names.flatMap encodeName ++ List.replicate zeros 0) = names := by
  constructor
  · rw [Dhcp6.domainList, and_self]
    exact realNames_iff octets
  · intro names few real zeros
    exact ⟨domainList_encodeName few real zeros, domainList_encodeName few real zeros⟩

theorem lan_read_back : domainList (["lan"].flatMap encodeName ++ List.replicate 3 0) = ["lan"] := by
  refine ((search_domains_real []).2 ["lan"] (by decide) (fun name member => ?_) 3).1
  rw [List.mem_singleton.mp member]
  have parts : "lan".toList.splitOn '.' = [['l', 'a', 'n']] := by decide +kernel
  refine ⟨by decide +kernel, fun part within => ?_⟩
  rw [parts, List.mem_singleton] at within
  subst within
  refine ⟨by decide, by decide, fun c letter => ?_⟩
  simp only [List.mem_cons, List.not_mem_nil, or_false] at letter
  rcases letter with rfl | rfl | rfl
  all_goals exact ⟨by decide, by decide, by decide⟩

/-- One label, `a.b`, and the root. -/
def dottedLabel : Bytes := [3, 0x61, 0x2e, 0x62, 0]

theorem dotted_label_splits : domainList dottedLabel = ["a.b"] ∧ Dhcp6.domainList dottedLabel = ["a.b"] ∧
    regionNames dottedLabel = [[[0x61, 0x2e, 0x62]]] ∧ ¬RealNames dottedLabel (domainList dottedLabel) := by
  have read : domainList dottedLabel = ["a.b"] := by decide +kernel
  have region : regionNames dottedLabel = [[[0x61, 0x2e, 0x62]]] := by decide +kernel
  refine ⟨read, read, region, fun real => ?_⟩
  rw [read, RealNames, region] at real
  have parts := (List.forall₂_cons.mp real).1.parts
  revert parts
  decide +kernel

end Netd.Model.Ndp
