import Mathlib.Data.List.GetD
import Netd.Machine.Records
import Netd.Proofs.Ndp.Deadlines

/-! # An advertisement as its options

Behind its fixed part an advertisement is options back to back, each a kind, a length that is not zero,
and a body. The decoder takes the whole or refuses the whole by that grammar alone; what it makes of the
options is a fold over them, to which an option its own parser rejects adds nothing.
-/

namespace Netd.Model.Ndp

/-- How long the option in front is. -/
def optionFront (octets : Bytes) : Option ℕ :=
  match octets with
  | _ :: units :: _ => if units.toNat = 0 ∨ octets.length < units.toNat * 8 then none else some (units.toNat * 8)
  | _ => none

/-- Options: as many groups of eight octets as the second octet says, and not none. -/
def optionRecords : Records U8 where
  Whole option := ∃ kind units body, option = kind :: units :: body ∧ units.toNat ≠ 0 ∧
    option.length = units.toNat * 8
  front := optionFront
  ne_nil whole := by
    obtain ⟨kind, units, body, rfl, _⟩ := whole
    exact List.cons_ne_nil _ _
  front_eq_some_iff {octets n} := by
    constructor
    · intro found
      rcases octets with _ | ⟨kind, _ | ⟨units, tail⟩⟩
      · contradiction
      · contradiction
      · rw [optionFront] at found
        split_ifs at found with bad
        rw [not_or, not_lt] at bad
        have size : ((kind :: units :: tail).take (units.toNat * 8)).length = units.toNat * 8 := by
          rw [List.length_take, Nat.min_eq_left bad.2]
        refine ⟨(kind :: units :: tail).take (units.toNat * 8), (kind :: units :: tail).drop (units.toNat * 8),
          ⟨kind, units, tail.take (units.toNat * 8 - 2), ?_, bad.1, size⟩, ?_, ?_⟩
        · obtain ⟨more, enough⟩ : ∃ more, units.toNat * 8 = more + 2 := ⟨units.toNat * 8 - 2, by omega⟩
          rw [enough, List.take_succ_cons, List.take_succ_cons, Nat.add_sub_cancel]
        · rw [List.take_append_drop]
        · rw [size]
          exact (Option.some.inj found).symm
    · rintro ⟨option, rest, ⟨kind, units, body, rfl, nonzero, size⟩, rfl, rfl⟩
      rw [List.cons_append, List.cons_append, optionFront, if_neg, size]
      rw [← List.cons_append, ← List.cons_append, List.length_append]
      exact not_or.mpr ⟨nonzero, by omega⟩

namespace RouterAdvert

/-- The step of the fold: an option by its kind. -/
def addWhole (ra : RouterAdvert) (option : Bytes) : RouterAdvert := ra.addOption (option.getD 0 0) option

/-- What an advertisement says before its options. -/
def header (body : Bytes) : RouterAdvert where
  managed := body.getD 5 0 &&& 0x80 != 0
  otherConfig := body.getD 5 0 &&& 0x40 != 0
  routerLifetime := fromBeBytes (slice body 6 8)
  mtu := none
  prefixes := []
  rdnss := []
  dnssl := []

/-- A body that is an advertisement with these options. -/
structure Carries (body : Bytes) (options : List Bytes) : Prop where
  length : 16 ≤ body.length
  kind : body.getD 0 0 = routerAdvert
  code : body.getD 1 0 = 0
  whole : ∀ option ∈ options, optionRecords.Whole option
  rest : body.drop 16 = options.flatten

/-- The walk over the options is a fold over the whole ones, with nothing left. -/
theorem decodeOptions_eq (rest : Bytes) (ra : RouterAdvert) :
    decodeOptions rest ra =
      if (optionRecords.split rest).2 = [] then some ((optionRecords.split rest).1.foldl addWhole ra) else none := by
  fun_induction decodeOptions rest ra with
  | case1 ra =>
    rw [Records.split_none rfl]
    rfl
  | case2 ra kind =>
    rw [Records.split_none rfl]
    rfl
  | case3 ra kind units tail length bad =>
    have none : optionRecords.front (kind :: units :: tail) = none := by
      change optionFront (kind :: units :: tail) = Option.none
      rw [optionFront, if_pos]
      omega
    rw [Records.split_none none]
    rfl
  | case4 ra kind units tail length good ih =>
    rw [not_or, not_lt] at good
    have found : optionRecords.front (kind :: units :: tail) = some length := by
      change optionFront (kind :: units :: tail) = some length
      rw [optionFront, if_neg]
      omega
    have kept : ((kind :: units :: tail).take length).getD 0 0 = kind := by
      obtain ⟨more, enough⟩ : ∃ more, length = more + 1 := ⟨length - 1, by omega⟩
      rw [enough, List.take_succ_cons, List.getD_cons_zero]
    rw [ih, Records.split_some found]
    dsimp only
    rw [List.foldl_cons, addWhole, kept]

theorem Carries.decode {body : Bytes} {options : List Bytes} (carries : Carries body options) :
    decode body = some (options.foldl addWhole (header body)) := by
  have split := Records.split_append carries.whole []
  rw [Records.split_none (show optionRecords.front [] = none from rfl), List.append_nil, List.append_nil] at split
  rw [RouterAdvert.decode, if_neg, decodeOptions_eq, carries.rest, split]
  · rfl
  · rw [not_or, not_or, not_lt, ne_eq, ne_eq, not_not, not_not]
    exact ⟨carries.length, carries.kind, carries.code⟩

/-- A body decodes when it is an advertisement. -/
theorem carries_of_decode {body : Bytes} {ra : RouterAdvert} (decoded : decode body = some ra) :
    Carries body (optionRecords.split (body.drop 16)).1 := by
  rw [RouterAdvert.decode] at decoded
  split_ifs at decoded with bad
  rw [not_or, not_or, not_lt, ne_eq, ne_eq, not_not, not_not] at bad
  rw [decodeOptions_eq] at decoded
  split_ifs at decoded with nothing
  have lost := optionRecords.split_flatten (body.drop 16)
  rw [nothing, List.append_nil] at lost
  exact ⟨bad.1, bad.2.1, bad.2.2, optionRecords.split_whole _, lost.symm⟩

/-- An option that says nothing: of an unknown kind, or one its own parser rejects. -/
inductive Ignored (option : Bytes) : Prop
  | unknown (other : option.getD 0 0 ∉ [optionPrefixInfo, optionMtu, optionRdnss, optionDnssl])
  | prefixInfo (kind : option.getD 0 0 = optionPrefixInfo)
      (rejected : option.length ≠ 32 ∨ 128 < option.getD 2 0 ∨
        Ipv6Addr.isMulticast (fromBeBytes (slice option 16 32)) = true ∨
        isV6LinkLocal (fromBeBytes (slice option 16 32)) = true)
  | mtu (kind : option.getD 0 0 = optionMtu) (rejected : option.length ≠ 8)
  | rdnss (kind : option.getD 0 0 = optionRdnss)
      (rejected : option.length < 24 ∨ (option.length - 8) % 16 ≠ 0)
  | dnssl (kind : option.getD 0 0 = optionDnssl) (rejected : option.length < 16)

theorem prefixInfo_eq_none_iff {option : Bytes} : Ndp.prefixInfo option = none ↔
    option.length ≠ 32 ∨ 128 < option.getD 2 0 ∨ Ipv6Addr.isMulticast (fromBeBytes (slice option 16 32)) = true ∨
      isV6LinkLocal (fromBeBytes (slice option 16 32)) = true := by
  rw [Ndp.prefixInfo]
  dsimp only
  split_ifs with size wide foreign
  · exact ⟨fun _ => .inl size, fun _ => rfl⟩
  · exact ⟨fun _ => .inr (.inl wide), fun _ => rfl⟩
  · rw [Bool.or_eq_true] at foreign
    exact ⟨fun _ => .inr (.inr foreign), fun _ => rfl⟩
  · rw [Bool.or_eq_true] at foreign
    simp only [false_iff]
    rintro (other | long | others)
    · exact size other
    · exact wide long
    · exact foreign others

theorem addWhole_ignored {option : Bytes} (ignored : Ignored option) (ra : RouterAdvert) :
    ra.addWhole option = ra := by
  rw [addWhole, addOption]
  cases ignored with
  | unknown other =>
    simp only [List.mem_cons, List.not_mem_nil, or_false, not_or] at other
    rw [if_neg (fun both => other.1 both.1), if_neg (fun both => other.2.1 both.1), if_neg other.2.2.1,
      if_neg other.2.2.2]
  | prefixInfo kind rejected =>
    rw [kind, prefixInfo_eq_none_iff.mpr rejected]
    by_cases room : ra.prefixes.length < maxPrefixes
    · rw [if_pos ⟨rfl, room⟩]
    · rw [if_neg (fun both => room both.2), if_neg (fun both => absurd both.1 (by decide)), if_neg (by decide),
        if_neg (by decide)]
  | mtu kind rejected =>
    rw [kind, if_neg (fun both => absurd both.1 (by decide)), if_neg (fun both => rejected both.2), if_neg (by decide),
      if_neg (by decide)]
  | rdnss kind rejected =>
    rw [kind, if_neg (fun both => absurd both.1 (by decide)), if_neg (fun both => absurd both.1 (by decide)),
      if_pos rfl, Ndp.rdnss, if_pos rejected]
  | dnssl kind rejected =>
    rw [kind, if_neg (fun both => absurd both.1 (by decide)), if_neg (fun both => absurd both.1 (by decide)),
      if_neg (by decide), if_pos rfl, Ndp.dnssl, if_pos rejected]

/-- No prefix option that is taken is of link-locals. -/
theorem prefixInfo_spares {option : Bytes} {info : PrefixInfo} (read : Ndp.prefixInfo option = some info) :
    isV6LinkLocal info.prefixAddr = false := by
  rw [Ndp.prefixInfo] at read
  dsimp only at read
  split_ifs at read with size wide foreign
  obtain rfl := Option.some.inj read
  rw [Bool.or_eq_true, not_or, Bool.not_eq_true, Bool.not_eq_true] at foreign
  exact foreign.2

/-- An option adds at most a prefix that its own parser takes. -/
theorem mem_addWhole_prefixes {ra : RouterAdvert} {option : Bytes} {info : PrefixInfo}
    (member : info ∈ (ra.addWhole option).prefixes) : info ∈ ra.prefixes ∨ Ndp.prefixInfo option = some info := by
  rw [addWhole, addOption] at member
  split_ifs at member with prefixes
  · cases read : Ndp.prefixInfo option with
    | none =>
      rw [read] at member
      exact .inl member
    | some added =>
      rw [read] at member
      refine (List.mem_append.mp member).imp_right fun last => ?_
      rw [List.mem_singleton.mp last]
  · exact .inl member
  · split at member <;> exact .inl member
  · split at member <;> exact .inl member
  · exact .inl member

/-- The prefixes an advertisement carries are read from its options. -/
theorem decode_prefixes {body : Bytes} {ra : RouterAdvert} (decoded : decode body = some ra) {info : PrefixInfo}
    (member : info ∈ ra.prefixes) :
    ∃ option ∈ (optionRecords.split (body.drop 16)).1, Ndp.prefixInfo option = some info := by
  have folded (options : List Bytes) (ra : RouterAdvert) (carried : info ∈ (options.foldl addWhole ra).prefixes) :
      info ∈ ra.prefixes ∨ ∃ option ∈ options, Ndp.prefixInfo option = some info := by
    induction options generalizing ra with
    | nil => exact .inl carried
    | cons option rest ih =>
      obtain before | ⟨other, among, read⟩ := ih (ra.addWhole option) carried
      · refine (mem_addWhole_prefixes before).imp_right fun read => ?_
        exact ⟨option, List.mem_cons_self, read⟩
      · exact .inr ⟨other, List.mem_cons_of_mem _ among, read⟩
  obtain rfl : _ = ra := Option.some.inj ((carries_of_decode decoded).decode.symm.trans decoded)
  refine (folded _ (header body) member).resolve_left fun before => ?_
  contradiction

/-- The fixed part alone says what an advertisement says before its options. -/
theorem header_take {body : Bytes} (whole : 16 ≤ body.length) (rest : Bytes) :
    header (body.take 16 ++ rest) = header body := by
  obtain ⟨fixed, behind, rfl, size⟩ : ∃ fixed behind, body = fixed ++ behind ∧ fixed.length = 16 :=
    ⟨body.take 16, body.drop 16, (List.take_append_drop _ _).symm, by rw [List.length_take, Nat.min_eq_left whole]⟩
  have at_ {index : ℕ} (inside : index < 16) (more : Bytes) : (fixed ++ more).getD index 0 = fixed.getD index 0 :=
    List.getD_append _ _ _ _ (by omega)
  have lifetime (more : Bytes) : slice (fixed ++ more) 6 8 = slice fixed 6 8 := by
    rw [slice, slice, List.drop_append_of_le_length (by omega), List.take_append_of_le_length]
    rw [List.length_drop]
    omega
  rw [List.take_left' size, header, header, at_ (by decide), at_ (by decide), lifetime, lifetime]

theorem Carries.delete {body : Bytes} {earlier later : List Bytes} {option : Bytes}
    (carries : Carries body (earlier ++ option :: later)) :
    Carries (body.take 16 ++ (earlier ++ later).flatten) (earlier ++ later) := by
  have size : (body.take 16).length = 16 := by rw [List.length_take, Nat.min_eq_left carries.length]
  have at_ {index : ℕ} (inside : index < 16) :
      (body.take 16 ++ (earlier ++ later).flatten).getD index 0 = body.getD index 0 := by
    conv_rhs => rw [← List.take_append_drop 16 body]
    rw [List.getD_append _ _ _ _ (by omega), List.getD_append _ _ _ _ (by omega)]
  refine ⟨?_, (at_ (by decide)).trans carries.kind, (at_ (by decide)).trans carries.code, fun other member => ?_, ?_⟩
  · rw [List.length_append, size]
    omega
  · apply carries.whole
    rcases List.mem_append.mp member with before | after
    · exact List.mem_append_left _ before
    · exact List.mem_append_right _ (List.mem_cons_of_mem _ after)
  · exact List.drop_left' size

theorem decode_delete {body : Bytes} {earlier later : List Bytes} {option : Bytes}
    (carries : Carries body (earlier ++ option :: later)) (ignored : Ignored option) :
    decode (body.take 16 ++ (earlier ++ later).flatten) = decode body := by
  rw [carries.decode, carries.delete.decode, header_take carries.length, List.foldl_append, List.foldl_append,
    List.foldl_cons, addWhole_ignored ignored]

end RouterAdvert

/-- An advertisement is accepted for its fixed part and its grammar alone, and is the fold of its options, to which
options that are unknown or rejected add nothing; a body that is not accepted leaves an engine as it was. -/
theorem advertisements_compose :
    (∀ body, (RouterAdvert.decode body).isSome = true ↔ ∃ options, RouterAdvert.Carries body options) ∧
      (∀ body options, RouterAdvert.Carries body options →
        RouterAdvert.decode body = some (options.foldl RouterAdvert.addWhole (RouterAdvert.header body))) ∧
      (∀ body earlier option later, RouterAdvert.Carries body (earlier ++ option :: later) →
        RouterAdvert.Ignored option →
          RouterAdvert.decode (body.take 16 ++ (earlier ++ later).flatten) = RouterAdvert.decode body) ∧
      ∀ (sha1 : Bytes → BitVec 160) (e : Engine) (now : ℕ) (source : Ipv6Addr) (body : Bytes),
        RouterAdvert.decode body = none → e.receive sha1 now source body = (e, []) := by
  refine ⟨fun body => ⟨fun accepted => ?_, ?_⟩, fun body options => RouterAdvert.Carries.decode,
    fun body earlier option later => RouterAdvert.decode_delete,
    fun sha1 e now source body => Engine.receive_undecodable sha1 e now source⟩
  · obtain ⟨ra, decoded⟩ := Option.isSome_iff_exists.mp accepted
    exact ⟨_, RouterAdvert.carries_of_decode decoded⟩
  · rintro ⟨options, carries⟩
    rw [carries.decode]
    rfl

/-- A prefix option that claims a length of 129, and an MTU option behind it. -/
def widePrefix : Bytes := [3, 4, 129, 0xc0] ++ List.replicate 28 0

def mtuOption : Bytes := [5, 1, 0, 0, 0, 0, 0x05, 0xdc]

def widePrefixBody : Bytes :=
  [134, 0, 0, 0, 64, 0xc0, 0x07, 0x08, 0, 0, 0, 0, 0, 0, 0, 0] ++ widePrefix ++ mtuOption

theorem wide_prefix_skipped :
    RouterAdvert.decode (widePrefixBody.take 16 ++ mtuOption) = RouterAdvert.decode widePrefixBody := by
  have whole : ∀ option ∈ [widePrefix, mtuOption], optionRecords.Whole option := by
    intro option member
    rcases List.mem_cons.mp member with rfl | member
    · exact ⟨3, 4, _, rfl, by decide, by decide⟩
    · rw [List.mem_singleton.mp member]
      exact ⟨5, 1, _, rfl, by decide, by decide⟩
  exact advertisements_compose.2.2.1 widePrefixBody [] widePrefix [mtuOption]
    ⟨by decide, by decide, by decide, whole, by decide⟩ (.prefixInfo (by decide) (.inr (.inl (by decide))))

end Netd.Model.Ndp
