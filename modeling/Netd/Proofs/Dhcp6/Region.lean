import Netd.Machine.Records
import Netd.Model.Dhcp6
import Netd.Proofs.Octets

/-! # The option region

DHCPv6 options stand back to back, each a code, a length and so many octets. The walk reads back what was
pushed, and of any octets it takes the whole options in front: pushed again they are the octets it walked
over, and what it leaves does not begin with another.
-/

namespace Netd.Model.Dhcp6

/-- An option on the wire. -/
def encodeOption (option : U16 × Bytes) : Bytes := pushOption [] option.1 option.2

/-- How long the option in front is. -/
def optionFront (octets : Bytes) : Option ℕ :=
  match octets with
  | _ :: _ :: l0 :: l1 :: rest =>
    let length := (fromBeBytes [l0, l1] : U16).toNat
    if rest.length < length then none else some (4 + length)
  | _ => none

theorem pushOption_eq (out : Bytes) (code : U16) (data : Bytes) :
    pushOption out code data = out ++ encodeOption (code, data) := by
  simp only [encodeOption, pushOption, List.nil_append, List.append_assoc]

theorem foldl_pushOption (pushed : List (U16 × Bytes)) (out : Bytes) :
    pushed.foldl (fun out option => pushOption out option.1 option.2) out = out ++ pushed.flatMap encodeOption := by
  induction pushed generalizing out with
  | nil => rw [List.foldl_nil, List.flatMap_nil, List.append_nil]
  | cons option rest ih => rw [List.foldl_cons, ih, pushOption_eq, List.flatMap_cons, List.append_assoc]

/-- The four octets of a header. -/
theorem encodeOption_eq (code : U16) (data : Bytes) : encodeOption (code, data) =
    code.extractLsb' 8 8 :: code.extractLsb' 0 8 :: (BitVec.ofNat 16 data.length).extractLsb' 8 8 ::
      (BitVec.ofNat 16 data.length).extractLsb' 0 8 :: data := rfl

theorem length_encodeOption (option : U16 × Bytes) : (encodeOption option).length = 4 + option.2.length := by
  rw [encodeOption_eq]
  simp only [List.length_cons]
  omega

theorem number_of_octets (number : U16) :
    (fromBeBytes [number.extractLsb' 8 8, number.extractLsb' 0 8] : U16) = number :=
  @fromBeBytes_toBeBytes 16 2 number rfl

theorem octets_of_number {high low : U8} : [(fromBeBytes [high, low] : U16).extractLsb' 8 8,
    (fromBeBytes [high, low] : U16).extractLsb' 0 8] = [high, low] :=
  toBeBytes_fromBeBytes [high, low] rfl

/-- What is announced as so long is an option. -/
theorem encodeOption_of_header {c0 c1 l0 l1 : U8} {data : Bytes}
    (size : data.length = (fromBeBytes [l0, l1] : U16).toNat) :
    encodeOption (fromBeBytes [c0, c1], data) = c0 :: c1 :: l0 :: l1 :: data := by
  have code := @octets_of_number c0 c1
  have length := @octets_of_number l0 l1
  rw [encodeOption_eq, size, BitVec.ofNat_toNat, BitVec.setWidth_eq]
  simp only [List.cons.injEq, and_true] at code length
  rw [code.1, code.2, length.1, length.2]

theorem optionFront_encodeOption {option : U16 × Bytes} (short : option.2.length < 65536) (rest : Bytes) :
    optionFront (encodeOption option ++ rest) = some (encodeOption option).length := by
  obtain ⟨code, data⟩ := option
  have size : (fromBeBytes [(BitVec.ofNat 16 data.length).extractLsb' 8 8,
      (BitVec.ofNat 16 data.length).extractLsb' 0 8] : U16).toNat = data.length := by
    rw [number_of_octets, BitVec.toNat_ofNat, Nat.mod_eq_of_lt short]
  rw [length_encodeOption, encodeOption_eq]
  simp only [List.cons_append, optionFront]
  rw [size, if_neg (by rw [List.length_append]; omega)]

/-- Options with a length that sixteen bits hold. -/
def regionRecords : Records U8 where
  Whole record := ∃ option : U16 × Bytes, option.2.length < 65536 ∧ record = encodeOption option
  front := optionFront
  ne_nil whole := by
    obtain ⟨option, _, rfl⟩ := whole
    exact List.cons_ne_nil _ _
  front_eq_some_iff {octets n} := by
    constructor
    · intro found
      rcases octets with _ | ⟨c0, _ | ⟨c1, _ | ⟨l0, _ | ⟨l1, rest⟩⟩⟩⟩
      · contradiction
      · contradiction
      · contradiction
      · contradiction
      · simp only [optionFront] at found
        split_ifs at found with bad
        have size : (rest.take (fromBeBytes [l0, l1] : U16).toNat).length = (fromBeBytes [l0, l1] : U16).toNat := by
          rw [List.length_take, Nat.min_eq_left (not_lt.mp bad)]
        refine ⟨_, rest.drop (fromBeBytes [l0, l1] : U16).toNat,
          ⟨(fromBeBytes [c0, c1], rest.take (fromBeBytes [l0, l1] : U16).toNat), ?_, rfl⟩, ?_, ?_⟩
        · rw [size]
          exact BitVec.isLt _
        · rw [encodeOption_of_header size]
          simp only [List.cons_append, List.take_append_drop]
        · rw [length_encodeOption, size]
          exact (Option.some.inj found).symm
    · rintro ⟨_, rest, ⟨option, short, rfl⟩, rfl, rfl⟩
      exact optionFront_encodeOption short rest

/-- The code and the data of a whole option. -/
def decodeOption (record : Bytes) : U16 × Bytes := (fromBeBytes (record.take 2), record.drop 4)

theorem decodeOption_encodeOption (option : U16 × Bytes) : decodeOption (encodeOption option) = option :=
  Prod.ext (number_of_octets option.1) rfl

/-- The walk gives the whole options in front. -/
theorem options_eq (octets : Bytes) : options octets = (regionRecords.split octets).1.map decodeOption := by
  fun_induction options octets with
  | case1 c0 c1 l0 l1 rest length bad =>
    have none : regionRecords.front (c0 :: c1 :: l0 :: l1 :: rest) = none := if_pos bad
    rw [Records.split_none none]
    rfl
  | case2 c0 c1 l0 l1 rest length good ih =>
    have found : regionRecords.front (c0 :: c1 :: l0 :: l1 :: rest) = some (4 + length) := if_neg good
    rw [Records.split_some found, ih, List.map_cons, Nat.add_comm 4 length]
    rfl
  | case3 octets short =>
    have none : regionRecords.front octets = none := by
      change optionFront octets = Option.none
      unfold optionFront
      split
      · next c0 c1 l0 l1 rest => exact absurd rfl (short c0 c1 l0 l1 rest)
      · rfl
    rw [Records.split_none none]
    rfl

/-- Pushed options are read back. -/
theorem options_pushed {pushed : List (U16 × Bytes)} (short : ∀ option ∈ pushed, option.2.length < 65536) :
    options (pushed.foldl (fun out option => pushOption out option.1 option.2) []) = pushed := by
  have whole : ∀ record ∈ pushed.map encodeOption, regionRecords.Whole record := by
    intro record member
    obtain ⟨option, among, rfl⟩ := List.mem_map.mp member
    exact ⟨option, short option among, rfl⟩
  have split := Records.split_append whole []
  rw [Records.split_none (show regionRecords.front [] = none from rfl), List.append_nil, List.append_nil] at split
  rw [foldl_pushOption, List.nil_append, options_eq, List.flatMap_def, split, List.map_map]
  exact (List.map_congr_left fun option _ => decodeOption_encodeOption option).trans (List.map_id pushed)

/-- Options that were read, pushed again, are the octets they were read from. -/
theorem pushed_options (octets : Bytes) :
    (options octets).foldl (fun out option => pushOption out option.1 option.2) [] =
      (regionRecords.split octets).1.flatten := by
  have whole := regionRecords.split_whole octets
  rw [foldl_pushOption, List.nil_append, options_eq, List.flatMap_def, List.map_map]
  refine congrArg List.flatten ((List.map_congr_left fun record member => ?_).trans (List.map_id _))
  obtain ⟨option, _, rfl⟩ := whole record member
  rw [Function.comp_apply, decodeOption_encodeOption]
  rfl

/-! ## The walk over the octets -/

namespace Region

/-- One call of the iterator at a position of the region: the positions it looks at, and the option there with the
position behind it. -/
def step (region : Bytes) (position : ℕ) : List ℕ × Option ((U16 × Bytes) × ℕ) :=
  if region.length - position < 4 then ([], none)
  else
    let header := [position, position + 1, position + 2, position + 3]
    let length := (fromBeBytes ((region.drop (position + 2)).take 2) : U16).toNat
    if region.length - position < 4 + length then (header, none)
    else
      (header ++ (List.range length).map (position + 4 + ·),
        some ((fromBeBytes ((region.drop position).take 2), (region.drop (position + 4)).take length),
          position + 4 + length))

/-- Calls from a position on, to the first that gives nothing. -/
inductive Walk (region : Bytes) : ℕ → List (U16 × Bytes) → Prop
  | ended {position : ℕ} (none : (step region position).2 = none) : Walk region position []
  | found {position next : ℕ} {option : U16 × Bytes} {rest : List (U16 × Bytes)}
      (some : (step region position).2 = some (option, next)) (walk : Walk region next rest) :
      Walk region position (option :: rest)

theorem reads_inside (region : Bytes) (position : ℕ) : ∀ index ∈ (step region position).1, index < region.length := by
  intro index member
  unfold step at member
  split_ifs at member with short
  · contradiction
  · dsimp only at member
    split_ifs at member with partly
    · simp only [List.mem_cons, List.not_mem_nil, or_false] at member
      omega
    · simp only [List.mem_append, List.mem_cons, List.not_mem_nil, or_false, List.mem_map, List.mem_range] at member
      rcases member with header | ⟨offset, inside, rfl⟩
      · omega
      · omega

/-- A call sees what the region still has. -/
theorem step_drop (region : Bytes) (position : ℕ) {c0 c1 l0 l1 : U8} {rest : Bytes}
    (here : region.drop position = c0 :: c1 :: l0 :: l1 :: rest) :
    (step region position).2 = if rest.length < (fromBeBytes [l0, l1] : U16).toNat then none
      else some ((fromBeBytes [c0, c1], rest.take (fromBeBytes [l0, l1] : U16).toNat),
        position + 4 + (fromBeBytes [l0, l1] : U16).toNat) := by
  have size : region.length - position = rest.length + 4 := by
    rw [← List.length_drop, here]
    rfl
  have header : (region.drop (position + 2)).take 2 = [l0, l1] := by
    rw [← List.drop_drop, here]
    rfl
  have code : (region.drop position).take 2 = [c0, c1] := by
    rw [here]
    rfl
  have data : region.drop (position + 4) = rest := by
    rw [← List.drop_drop, here]
    rfl
  rw [step, if_neg (by omega)]
  dsimp only
  rw [header, code, data, size]
  split_ifs with partly short short
  · rfl
  · omega
  · omega
  · rfl

/-- The walk comes to an end, with the options of the octets it began at. -/
theorem walk_options (region : Bytes) (position : ℕ) : Walk region position (options (region.drop position)) := by
  generalize here : region.drop position = octets
  fun_induction options octets generalizing position with
  | case1 c0 c1 l0 l1 rest length bad =>
    apply Walk.ended
    rw [step_drop region position here, if_pos bad]
  | case2 c0 c1 l0 l1 rest length good ih =>
    have next : region.drop (position + 4 + length) = rest.drop length := by
      rw [← List.drop_drop, ← List.drop_drop, here]
      rfl
    apply Walk.found _ (ih (position + 4 + length) next)
    rw [step_drop region position here, if_neg good]
  | case3 octets short =>
    apply Walk.ended
    have few : region.length - position < 4 := by
      rw [← List.length_drop, here]
      rcases octets with _ | ⟨c0, _ | ⟨c1, _ | ⟨l0, _ | ⟨l1, rest⟩⟩⟩⟩
      · simp
      · simp
      · simp
      · simp
      · exact absurd rfl (short c0 c1 l0 l1 rest)
    rw [step, if_pos few]

end Region

/-- The region round-trips both ways: pushed options are read back, options that were read are the octets they were
read from, up to where no whole option begins; and the walk ends without looking outside. -/
theorem options_exact :
    (∀ pushed : List (U16 × Bytes), (∀ option ∈ pushed, option.2.length < 65536) →
        options (pushed.foldl (fun out option => pushOption out option.1 option.2) []) = pushed) ∧
      (∀ octets, ∃ rest, (options octets).foldl (fun out option => pushOption out option.1 option.2) [] ++ rest = octets ∧
        ∀ code data more, data.length < 65536 → rest ≠ pushOption [] code data ++ more) ∧
      (∀ region, Region.Walk region 0 (options region)) ∧
      ∀ region position, ∀ index ∈ (Region.step region position).1, index < region.length := by
  refine ⟨fun pushed short => options_pushed short, fun octets => ?_, fun region => Region.walk_options region 0,
    Region.reads_inside⟩
  refine ⟨(regionRecords.split octets).2, ?_, ?_⟩
  · rw [pushed_options]
    exact regionRecords.split_flatten octets
  · intro code data more short rest
    have stop := regionRecords.split_rest octets
    rw [rest] at stop
    have front : regionRecords.front (pushOption [] code data ++ more) = some (encodeOption (code, data)).length :=
      @optionFront_encodeOption (code, data) short more
    rw [front] at stop
    contradiction

theorem requested_options_read_back :
    options (pushOption (pushOption [] optionClientId [1, 2]) optionOro Client.requestedOptions) =
      [(optionClientId, [1, 2]), (optionOro, Client.requestedOptions)] :=
  options_exact.1 [(optionClientId, [1, 2]), (optionOro, Client.requestedOptions)] (by decide)

end Netd.Model.Dhcp6
