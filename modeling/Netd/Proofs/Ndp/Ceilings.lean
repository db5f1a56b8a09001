import Mathlib.Algebra.Order.BigOperators.Group.List
import Mathlib.Data.List.Perm.Subperm
import Netd.Proofs.Ndp.Adverts
import Netd.Proofs.Ndp.Names
import Netd.Proofs.Ndp.Options
import Netd.Proofs.Ndp.Soliciting

/-! # What one advertisement may carry

Prefixes are counted over the whole of an advertisement, servers and domains within the option that names
them, and an advertisement has as many options as fit. What a decoded advertisement carries is counted
here on the wire, option by option, and what one receive can add to the maps of an engine by the names
that are carried.
-/

namespace Netd.Model.Ndp

/-! ## Keys that come in -/

section Keys

variable {κ ν : Type} [LinearOrder κ]

/-- The keys a map has and did not have before. -/
def newKeys (before after : SortedMap κ ν) : List κ :=
  (after.entries.map Prod.fst).filter fun key => (before.lookup key).isNone

/-- At most the keys that are named come in. -/
theorem length_newKeys_le {before after : SortedMap κ ν} {named : List κ}
    (only : ∀ key, (after.lookup key).isSome = true → (before.lookup key).isSome = true ∨ key ∈ named) :
    (newKeys before after).length ≤ named.length := by
  have nodup : (newKeys before after).Nodup := (List.pairwise_map.mpr (after.sorted.imp ne_of_lt)).filter _
  apply (nodup.subperm ?_).length_le
  intro key member
  obtain ⟨among, new⟩ := List.mem_filter.mp member
  obtain ⟨⟨_, value⟩, stored, rfl⟩ := List.mem_map.mp among
  have there : (after.lookup _).isSome = true :=
    Option.isSome_iff_exists.mpr ⟨value, (SortedMap.lookup_eq_some_iff _ _ _).mpr stored⟩
  refine (only _ there).resolve_left fun old => ?_
  rw [Option.isNone_iff_eq_none] at new
  rw [new] at old
  contradiction

theorem lookup_filter_isSome {map : SortedMap κ ν} {keep : κ → ν → Bool} {key : κ}
    (there : ((map.filter keep).lookup key).isSome = true) : (map.lookup key).isSome = true := by
  rw [SortedMap.lookup_filter] at there
  obtain ⟨value, found⟩ := Option.isSome_iff_exists.mp there
  exact Option.isSome_iff_exists.mpr ⟨value, (Option.filter_eq_some_iff.mp found).1⟩

end Keys

/-! ## What is carried -/

namespace RouterAdvert

/-- The options of a body. -/
def options (body : Bytes) : List Bytes := (optionRecords.split (body.drop 16)).1

/-- How many options of a kind a body has. -/
def optionCount (kind : U8) (body : Bytes) : ℕ := (options body).countP fun option => option.getD 0 0 = kind

/-- The servers of all options together. -/
def serverCount (ra : RouterAdvert) : ℕ := (ra.rdnss.map fun r => r.servers.length).sum

/-- The domains of all options together. -/
def domainCount (ra : RouterAdvert) : ℕ := (ra.dnssl.map fun d => d.domains.length).sum

/-- The addresses that stand behind the head of an option. -/
def addressesOf (option : Bytes) : List Ipv6Addr :=
  ((Records.blocks U8 (show 0 < 16 by decide)).split (option.drop 8)).1.map fromBeBytes

/-- An address that can be that of a server. -/
def canServe (server : Ipv6Addr) : Bool := !server.isUnspecified && !server.isMulticast && !server.isLoopback

/-- How many servers an option names: of its first sixteen addresses, those that can be servers. -/
def offeredServers (option : Bytes) : ℕ :=
  if option.getD 0 0 = optionRdnss ∧ 24 ≤ option.length ∧ (option.length - 8) % 16 = 0 then
    ((addressesOf option).take maxServers).countP canServe
  else 0

/-- How many domains an option names: the names behind its head, up to the first that is not acceptable,
those that have a label, sixteen at most. -/
def offeredDomains (option : Bytes) : ℕ :=
  if option.getD 0 0 = optionDnssl ∧ 16 ≤ option.length then (acceptedNames (option.drop 8)).length else 0

/-- What the decoder makes of an option of servers. -/
def rdnssOf (option : Bytes) : Option Rdnss := if option.getD 0 0 = optionRdnss then Ndp.rdnss option else none

/-- What the decoder makes of an option of domains. -/
def dnsslOf (option : Bytes) : Option Dnssl := if option.getD 0 0 = optionDnssl then Ndp.dnssl option else none

theorem chunksOfSixteen_eq (octets : Bytes) :
    chunksOfSixteen octets = ((Records.blocks U8 (show 0 < 16 by decide)).split octets).1.map fromBeBytes := by
  rw [Records.split_blocks, List.map_map, chunksOfSixteen]
  refine List.map_congr_left fun index _ => ?_
  rw [slice, Nat.add_sub_cancel_left]
  rfl

theorem offeredServers_eq (option : Bytes) :
    offeredServers option = (rdnssOf option).elim 0 fun r => r.servers.length := by
  rw [offeredServers, rdnssOf]
  by_cases kind : option.getD 0 0 = optionRdnss
  · rw [if_pos kind, Ndp.rdnss]
    by_cases shape : option.length < 24 ∨ (option.length - 8) % 16 ≠ 0
    · rw [if_pos shape, if_neg]
      · rfl
      · rintro ⟨-, long, groups⟩
        omega
    · rw [if_neg shape, if_pos, List.countP_eq_length_filter, addressesOf, ← chunksOfSixteen_eq]
      · rfl
      · exact ⟨kind, by omega, by omega⟩
  · rw [if_neg kind, if_neg fun both => kind both.1]
    rfl

theorem offeredDomains_eq (option : Bytes) :
    offeredDomains option = (dnsslOf option).elim 0 fun d => d.domains.length := by
  rw [offeredDomains, dnsslOf]
  by_cases kind : option.getD 0 0 = optionDnssl
  · rw [if_pos kind, Ndp.dnssl]
    by_cases short : option.length < 16
    · rw [if_pos short, if_neg fun both => absurd both.2 (by omega)]
      rfl
    · rw [if_neg short, if_pos ⟨kind, by omega⟩, Option.elim_some, domainList_eq, List.length_map]
  · rw [if_neg kind, if_neg fun both => kind both.1]
    rfl

/-- What one option adds. -/
theorem addWhole_parts (ra : RouterAdvert) (option : Bytes) :
    (ra.addWhole option).rdnss = ra.rdnss ++ (rdnssOf option).toList ∧
      (ra.addWhole option).dnssl = ra.dnssl ++ (dnsslOf option).toList ∧
      (ra.prefixes.length ≤ maxPrefixes → (ra.addWhole option).prefixes.length ≤ maxPrefixes) := by
  unfold addWhole addOption rdnssOf dnsslOf
  generalize option.getD 0 0 = kind
  by_cases servers : kind = optionRdnss
  · subst servers
    rw [if_neg (fun both => absurd both.1 (by decide)), if_neg (fun both => absurd both.1 (by decide)), if_pos rfl,
      if_pos rfl, if_neg (by decide), Option.toList_none, List.append_nil]
    cases Ndp.rdnss option with
    | none => exact ⟨(List.append_nil _).symm, rfl, id⟩
    | some r => exact ⟨rfl, rfl, id⟩
  · by_cases domains : kind = optionDnssl
    · subst domains
      rw [if_neg (fun both => absurd both.1 (by decide)), if_neg (fun both => absurd both.1 (by decide)),
        if_neg (by decide), if_pos rfl, if_neg (by decide), if_pos rfl, Option.toList_none, List.append_nil]
      cases Ndp.dnssl option with
      | none => exact ⟨rfl, (List.append_nil _).symm, id⟩
      | some d => exact ⟨rfl, rfl, id⟩
    · rw [if_neg servers, if_neg domains, if_neg servers, if_neg domains, Option.toList_none, Option.toList_none,
        List.append_nil, List.append_nil]
      split_ifs with room
      · split
        · refine ⟨rfl, rfl, fun _ => ?_⟩
          dsimp only
          rw [List.length_append, List.length_singleton]
          exact room.2
        · exact ⟨rfl, rfl, id⟩
      · exact ⟨rfl, rfl, id⟩
      · exact ⟨rfl, rfl, id⟩

theorem foldl_addWhole_parts (options : List Bytes) (ra : RouterAdvert) :
    (options.foldl addWhole ra).rdnss = ra.rdnss ++ options.filterMap rdnssOf ∧
      (options.foldl addWhole ra).dnssl = ra.dnssl ++ options.filterMap dnsslOf ∧
      (ra.prefixes.length ≤ maxPrefixes → (options.foldl addWhole ra).prefixes.length ≤ maxPrefixes) := by
  induction options generalizing ra with
  | nil => exact ⟨(List.append_nil _).symm, (List.append_nil _).symm, id⟩
  | cons option rest ih =>
    obtain ⟨servers, domains, few⟩ := ra.addWhole_parts option
    obtain ⟨moreServers, moreDomains, stillFew⟩ := ih (ra.addWhole option)
    have one {α : Type} (f : Bytes → Option α) :
        (option :: rest).filterMap f = (f option).toList ++ rest.filterMap f := by
      rw [List.filterMap_cons]
      cases f option <;> rfl
    rw [List.foldl_cons, moreServers, moreDomains, servers, domains, one, one, List.append_assoc, List.append_assoc]
    exact ⟨rfl, rfl, fun start => stillFew (few start)⟩

/-- An advertisement carries what its options carry, one by one, and never too many prefixes. -/
theorem decode_parts {body : Bytes} {ra : RouterAdvert} (decoded : decode body = some ra) :
    ra.rdnss = (options body).filterMap rdnssOf ∧ ra.dnssl = (options body).filterMap dnsslOf ∧
      ra.prefixes.length ≤ maxPrefixes := by
  obtain ⟨servers, domains, few⟩ := foldl_addWhole_parts (options body) (header body)
  obtain rfl : _ = ra := Option.some.inj ((carries_of_decode decoded).decode.symm.trans decoded)
  exact ⟨servers, domains, few (Nat.zero_le _)⟩

/-- The options an advertisement carries name few servers and few domains, all of them together. -/
def FewOffered (body : Bytes) : Prop :=
  ((options body).map offeredServers).sum ≤ maxServers ∧ ((options body).map offeredDomains).sum ≤ maxDomains

theorem sum_filterMap {α β : Type} (f : α → Option β) (count : β → ℕ) (items : List α) :
    ((items.filterMap f).map count).sum = (items.map fun item => (f item).elim 0 count).sum := by
  induction items with
  | nil => rfl
  | cons item rest ih =>
    rw [List.filterMap_cons, List.map_cons, List.sum_cons, ← ih]
    cases f item with
    | none => exact (Nat.zero_add _).symm
    | some b => rfl

theorem decode_counts {body : Bytes} {ra : RouterAdvert} (decoded : decode body = some ra) :
    ra.serverCount = ((options body).map offeredServers).sum ∧
      ra.domainCount = ((options body).map offeredDomains).sum := by
  obtain ⟨servers, domains, -⟩ := decode_parts decoded
  rw [serverCount, domainCount, servers, domains, sum_filterMap, sum_filterMap]
  exact ⟨congrArg List.sum (List.map_congr_left fun option _ => (offeredServers_eq option).symm),
    congrArg List.sum (List.map_congr_left fun option _ => (offeredDomains_eq option).symm)⟩

/-- No option is read for more than sixteen servers. -/
theorem rdnssOf_few {option : Bytes} {r : Rdnss} (read : rdnssOf option = some r) :
    option.getD 0 0 = optionRdnss ∧ r.servers.length ≤ maxServers := by
  rw [rdnssOf, Ndp.rdnss] at read
  split_ifs at read with kind
  obtain rfl := Option.some.inj read
  refine ⟨kind, (List.length_filter_le _ _).trans ?_⟩
  rw [List.length_take]
  exact Nat.min_le_left _ _

/-- No option is read for more than sixteen domains. -/
theorem dnsslOf_few {option : Bytes} {d : Dnssl} (read : dnsslOf option = some d) :
    option.getD 0 0 = optionDnssl ∧ d.domains.length ≤ maxDomains := by
  rw [dnsslOf, Ndp.dnssl] at read
  split_ifs at read with kind
  obtain rfl := Option.some.inj read
  refine ⟨kind, ?_⟩
  dsimp only
  rw [domainList_eq, List.length_map, acceptedNames, List.length_take]
  exact Nat.min_le_left _ _

/-- Lists read from options of one kind are no more than these options. -/
theorem length_filterMap_le {α : Type} {f : Bytes → Option α} {kind : U8} {body : Bytes}
    (own : ∀ option a, f option = some a → option.getD 0 0 = kind) :
    ((options body).filterMap f).length ≤ optionCount kind body := by
  rw [List.length_filterMap_eq_countP]
  refine List.countP_mono_left fun option _ read => ?_
  obtain ⟨a, read⟩ := Option.isSome_iff_exists.mp read
  exact decide_eq_true (own option a read)

end RouterAdvert

/-! ## What is added -/

namespace Engine

variable (sha1 : Bytes → BitVec 160)

theorem stated_named {κ : Type} [LinearOrder κ] (now : ℕ) (lifetime : U32) (map : SortedMap κ (Option ℕ))
    (key other : κ)
    (there : ((stated now lifetime map key).lookup other).isSome = true) :
    (map.lookup other).isSome = true ∨ other = key := by
  by_cases same : other = key
  · exact .inr same
  · refine .inl ?_
    rw [stated] at there
    split_ifs at there
    · rwa [SortedMap.lookup_erase, if_neg same] at there
    · rwa [SortedMap.lookup_insert, if_neg same] at there

theorem foldl_stated_named {κ : Type} [LinearOrder κ] (now : ℕ) (lifetime : U32) (keys : List κ)
    (map : SortedMap κ (Option ℕ)) (other : κ)
    (there : ((keys.foldl (stated now lifetime) map).lookup other).isSome = true) :
    (map.lookup other).isSome = true ∨ other ∈ keys := by
  induction keys generalizing map with
  | nil => exact .inl there
  | cons key rest ih =>
    rcases ih (stated now lifetime map key) there with before | later
    · refine (stated_named now lifetime map key other before).imp_right fun same => ?_
      rw [same]
      exact List.mem_cons_self
    · exact .inr (List.mem_cons_of_mem _ later)

theorem foldl_named {α κ : Type} [LinearOrder κ] (now : ℕ) (lifetime : α → U32) (keys : α → List κ)
    (statements : List α)
    (map : SortedMap κ (Option ℕ)) (other : κ)
    (there : ((statements.foldl (fun map s => (keys s).foldl (stated now (lifetime s)) map) map).lookup other).isSome =
      true) :
    (map.lookup other).isSome = true ∨ other ∈ statements.flatMap keys := by
  induction statements generalizing map with
  | nil => exact .inl there
  | cons s rest ih =>
    rw [List.flatMap_cons, List.mem_append]
    rcases ih _ there with before | later
    · exact (foldl_stated_named now (lifetime s) (keys s) map other before).imp_right .inl
    · exact .inr (.inr later)

theorem foldl_receivePrefix_named (now : ℕ) (infos : List PrefixInfo) (e : Engine) (key : Ipv6Addr ×ₗ U8)
    (there : ((infos.foldl (receivePrefix sha1 now) e).prefixes.lookup key).isSome = true) :
    (e.prefixes.lookup key).isSome = true ∨ key ∈ infos.map infoKey := by
  induction infos generalizing e with
  | nil => exact .inl there
  | cons info rest ih =>
    rw [List.map_cons, List.mem_cons]
    rcases ih _ there with before | later
    · have told := receivePrefix_told sha1 now e info key
      generalize (receivePrefix sha1 now e info).prefixes.lookup key = found at told before
      cases told with
      | kept => exact .inl before
      | updated isUsable same | formed isUsable same => exact .inr (.inl same)
    · exact .inr (.inr later)

theorem expire_rdnss (e : Engine) (now : ℕ) : (e.expire now).rdnss =
    e.rdnss.filter fun _ ends => ends.all fun moment => decide (now < moment) := by
  obtain ⟨rng, prefixes, frame⟩ := e.expire_frame now
  rw [frame]
  unfold dropEnded; dsimp only; split <;> rfl

theorem expire_dnssl (e : Engine) (now : ℕ) : (e.expire now).dnssl =
    e.dnssl.filter fun _ ends => ends.all fun moment => decide (now < moment) := by
  obtain ⟨rng, prefixes, frame⟩ := e.expire_frame now
  rw [frame]
  unfold dropEnded; dsimp only; split <;> rfl

theorem expire_prefixes_named (e : Engine) (now : ℕ) (key : Ipv6Addr ×ₗ U8)
    (there : ((e.expire now).prefixes.lookup key).isSome = true) : (e.prefixes.lookup key).isSome = true := by
  obtain ⟨rng, _, looked⟩ := expire_lookup (fun (_ : U64) (_ : True) => trivial) e now trivial key
  rw [looked, Option.isSome_map] at there
  obtain ⟨p, kept⟩ := Option.isSome_iff_exists.mp there
  exact Option.isSome_iff_exists.mpr ⟨p, (Option.filter_eq_some_iff.mp kept).1⟩

theorem receiveRouter_named (e : Engine) (now : ℕ) (source : Ipv6Addr) (ra : RouterAdvert) (router : Ipv6Addr)
    (there : ((e.receiveRouter now source ra).routers.lookup router).isSome = true) :
    (e.routers.lookup router).isSome = true ∨ router ∈ [source] := by
  rw [List.mem_singleton]
  by_cases same : router = source
  · exact .inr same
  · refine .inl ?_
    unfold receiveRouter at there
    dsimp only at there
    split_ifs at there
    · rwa [SortedMap.lookup_insert, if_neg same] at there
    · rwa [SortedMap.lookup_erase, if_neg same] at there

/-- What an advertised engine holds apart from routers and prefixes. -/
theorem advertised_rest (e : Engine) (now : ℕ) (source : Ipv6Addr) (ra : RouterAdvert) :
    (e.advertised sha1 now source ra).rdnss =
        ra.rdnss.foldl (fun map r => r.servers.foldl (stated now r.lifetime) map) e.rdnss ∧
      (e.advertised sha1 now source ra).dnssl =
        ra.dnssl.foldl (fun map d => d.domains.foldl (stated now d.lifetime) map) e.dnssl ∧
      (e.advertised sha1 now source ra).mtu = ra.mtu.or e.mtu ∧
      (e.advertised sha1 now source ra).dhcp6Wanted = (e.dhcp6Wanted || ra.managed || ra.otherConfig) := by
  obtain ⟨rng, prefixes, frame⟩ := foldl_receivePrefix_frame sha1 now ra.prefixes (e.receiveRouter now source ra)
  rw [advertised, frame]
  unfold receiveRouter
  dsimp only
  split <;> exact ⟨rfl, rfl, rfl, rfl⟩

/-- Whatever an engine has after a receive, it had before or the advertisement names. -/
structure Named (ra : RouterAdvert) (source : Ipv6Addr) (before after : Engine) : Prop where
  routers : ∀ key, (after.routers.lookup key).isSome = true → (before.routers.lookup key).isSome = true ∨ key ∈ [source]
  prefixes : ∀ key, (after.prefixes.lookup key).isSome = true →
    (before.prefixes.lookup key).isSome = true ∨ key ∈ ra.prefixes.map infoKey
  rdnss : ∀ key, (after.rdnss.lookup key).isSome = true →
    (before.rdnss.lookup key).isSome = true ∨ key ∈ ra.rdnss.flatMap Rdnss.servers
  dnssl : ∀ key, (after.dnssl.lookup key).isSome = true →
    (before.dnssl.lookup key).isSome = true ∨ key ∈ ra.dnssl.flatMap Dnssl.domains

theorem receive_named (e : Engine) (now : ℕ) (source : Ipv6Addr) {body : Bytes} {ra : RouterAdvert}
    (decoded : RouterAdvert.decode body = some ra) : Named ra source e (e.receive sha1 now source body).1 := by
  obtain ⟨routers, -⟩ := e.advertised_schedule sha1 now source ra
  obtain ⟨rdnss, dnssl, -⟩ := e.advertised_rest sha1 now source ra
  simp only [receive, decoded, emitIfChanged_fst]
  constructor
  · intro key there
    dsimp only at there
    rw [expire_routers, routers] at there
    exact receiveRouter_named e now source ra key (lookup_filter_isSome there)
  · intro key there
    have before := (e.receiveRouter_frame now source ra).1
    rw [← before]
    exact foldl_receivePrefix_named sha1 now ra.prefixes _ key
      (expire_prefixes_named (e.advertised sha1 now source ra) now key there)
  · intro key there
    dsimp only at there
    rw [expire_rdnss, rdnss] at there
    exact foldl_named now Rdnss.lifetime Rdnss.servers ra.rdnss e.rdnss key (lookup_filter_isSome there)
  · intro key there
    dsimp only at there
    rw [expire_dnssl, dnssl] at there
    exact foldl_named now Dnssl.lifetime Dnssl.domains ra.dnssl e.dnssl key (lookup_filter_isSome there)

end Engine

/-- An advertisement within the ceilings, and what it can add to an engine. -/
structure Modest (body : Bytes) (ra : RouterAdvert) : Prop where
  prefixes : ra.prefixes.length ≤ maxPrefixes
  servers : ra.serverCount ≤ maxServers
  domains : ra.domainCount ≤ maxDomains
  added : ∀ (sha1 : Bytes → BitVec 160) (e : Engine) (now : ℕ) (source : Ipv6Addr),
    (newKeys e.prefixes (e.receive sha1 now source body).1.prefixes).length ≤ maxPrefixes ∧
      (newKeys e.rdnss (e.receive sha1 now source body).1.rdnss).length ≤ maxServers ∧
      (newKeys e.dnssl (e.receive sha1 now source body).1.dnssl).length ≤ maxDomains ∧
      (newKeys e.routers (e.receive sha1 now source body).1.routers).length ≤ 1

/-- An accepted advertisement is within the ceilings exactly when its options together name few servers and few
domains; the prefixes are always few. -/
theorem modest_iff_fewOffered (body : Bytes) (ra : RouterAdvert) (decoded : RouterAdvert.decode body = some ra) :
    Modest body ra ↔ RouterAdvert.FewOffered body := by
  obtain ⟨-, -, prefixes⟩ := RouterAdvert.decode_parts decoded
  obtain ⟨servers, domains⟩ := RouterAdvert.decode_counts decoded
  rw [RouterAdvert.FewOffered, ← servers, ← domains]
  refine ⟨fun modest => ⟨modest.servers, modest.domains⟩, fun few => ⟨prefixes, few.1, few.2, ?_⟩⟩
  intro sha1 e now source
  have named := e.receive_named sha1 now source decoded
  have servers := length_newKeys_le named.rdnss
  have domains := length_newKeys_le named.dnssl
  rw [List.length_flatMap] at servers domains
  exact ⟨(length_newKeys_le named.prefixes).trans (by rwa [List.length_map]), servers.trans few.1,
    domains.trans few.2, length_newKeys_le named.routers⟩

/-- An advertisement with few prefixes, and few servers and few domains for each of its options of them. -/
structure PerOption (body : Bytes) (ra : RouterAdvert) : Prop where
  prefixes : ra.prefixes.length ≤ maxPrefixes
  servers : ∀ r ∈ ra.rdnss, r.servers.length ≤ maxServers
  domains : ∀ d ∈ ra.dnssl, d.domains.length ≤ maxDomains
  rdnss : ra.rdnss.length ≤ RouterAdvert.optionCount optionRdnss body
  dnssl : ra.dnssl.length ≤ RouterAdvert.optionCount optionDnssl body
  added : ∀ (sha1 : Bytes → BitVec 160) (e : Engine) (now : ℕ) (source : Ipv6Addr),
    (newKeys e.prefixes (e.receive sha1 now source body).1.prefixes).length ≤ maxPrefixes ∧
      (newKeys e.rdnss (e.receive sha1 now source body).1.rdnss).length ≤
        maxServers * RouterAdvert.optionCount optionRdnss body ∧
      (newKeys e.dnssl (e.receive sha1 now source body).1.dnssl).length ≤
        maxDomains * RouterAdvert.optionCount optionDnssl body ∧
      (newKeys e.routers (e.receive sha1 now source body).1.routers).length ≤ 1

/-- A sum of few small numbers. -/
theorem sum_le_mul {α : Type} {items : List α} {count : α → ℕ} {most many : ℕ}
    (small : ∀ item ∈ items, count item ≤ most) (few : items.length ≤ many) :
    (items.map count).sum ≤ most * many := by
  have bounded : (items.map count).sum ≤ (items.map count).length • most :=
    List.sum_le_card_nsmul _ most (List.forall_mem_map.mpr small)
  rw [List.length_map, Nat.nsmul_eq_mul, Nat.mul_comm] at bounded
  exact bounded.trans (Nat.mul_le_mul_left most few)

theorem perOption_of_decode {body : Bytes} {ra : RouterAdvert} (decoded : RouterAdvert.decode body = some ra) :
    PerOption body ra := by
  obtain ⟨rdnss, dnssl, prefixes⟩ := RouterAdvert.decode_parts decoded
  have servers : ∀ r ∈ ra.rdnss, r.servers.length ≤ maxServers := by
    rw [rdnss]
    intro r member
    obtain ⟨option, -, read⟩ := List.mem_filterMap.mp member
    exact (RouterAdvert.rdnssOf_few read).2
  have domains : ∀ d ∈ ra.dnssl, d.domains.length ≤ maxDomains := by
    rw [dnssl]
    intro d member
    obtain ⟨option, -, read⟩ := List.mem_filterMap.mp member
    exact (RouterAdvert.dnsslOf_few read).2
  have serverLists : ra.rdnss.length ≤ RouterAdvert.optionCount optionRdnss body := by
    rw [rdnss]
    exact RouterAdvert.length_filterMap_le fun _ _ read => (RouterAdvert.rdnssOf_few read).1
  have domainLists : ra.dnssl.length ≤ RouterAdvert.optionCount optionDnssl body := by
    rw [dnssl]
    exact RouterAdvert.length_filterMap_le fun _ _ read => (RouterAdvert.dnsslOf_few read).1
  refine ⟨prefixes, servers, domains, serverLists, domainLists, fun sha1 e now source => ?_⟩
  have named := e.receive_named sha1 now source decoded
  have newServers := length_newKeys_le named.rdnss
  have newDomains := length_newKeys_le named.dnssl
  rw [List.length_flatMap] at newServers newDomains
  exact ⟨(length_newKeys_le named.prefixes).trans (by rwa [List.length_map]),
    newServers.trans (sum_le_mul servers serverLists), newDomains.trans (sum_le_mul domains domainLists),
    length_newKeys_le named.routers⟩

/-- The fixed part of an advertisement. -/
def fixedPart : Bytes := [134, 0, 0, 0, 64, 0, 0x07, 0x08, 0, 0, 0, 0, 0, 0, 0, 0]

/-- An RDNSS option with nine servers. -/
def nineServers (first : U8) : Bytes :=
  [25, 19, 0, 0, 0, 0, 0x0e, 0x10] ++
    (List.range 9).flatMap fun index => [0xfd] ++ List.replicate 14 0 ++ [first + BitVec.ofNat 8 index]

def eighteenServers : Bytes := fixedPart ++ nineServers 1 ++ nineServers 10

end Netd.Model.Ndp
