import Netd.Proofs.Ndp.Addresses
import Netd.Proofs.Ndp.TwoHours

/-! # When the listed addresses are all different

Prefixes are stored under all sixteen octets of their address, but only the first eight are hashed and
joined. Two stored prefixes that differ in the last eight octets therefore have the same stable address,
and it is listed twice. That is the only way: the addresses of a reachable engine are all different
exactly as long as no advertisement brings such a pair together.
-/

namespace Netd.Model.Ndp.Engine

/-- What the listed addresses should be at every instant: all different, of a /64, not reserved. -/
def WellFormed (e : Engine) : Prop := ∀ now,
  ((e.addresses now).map fun entry => (entry.address, entry.prefixLength)).Nodup ∧
    ∀ entry ∈ e.addresses now, entry.prefixLength = 64 ∧ reservedIid (interfaceId entry.address) = false

/-- Stored prefixes that differ, differ in their first eight octets. -/
def Separated (e : Engine) : Prop := ∀ key key' p p', e.prefixes.lookup key = some p →
  e.prefixes.lookup key' = some p' → network (ofLex key).1 = network (ofLex key').1 → key = key'

/-! ## Listed addresses -/

/-- The addresses of a prefix are its stable and temporary ones, with its length. -/
theorem prefixAddresses_sublist (now : ℕ) (length : U8) (p : Prefix) :
    ((prefixAddresses now length p).map fun entry => (entry.address, entry.prefixLength)).Sublist
      ((p.stable :: p.temps.map Temp.address).map fun address => (address, length)) := by
  unfold prefixAddresses
  split
  · exact List.nil_sublist _
  · dsimp only
    rw [List.map_cons, List.map_cons, List.map_map, List.map_map]
    exact (List.filter_sublist.map _).cons_cons _

section Listed

variable {sha1 : Bytes → BitVec 160} {config : Config}

theorem mem_prefixAddresses {key : Ipv6Addr ×ₗ U8} {p : Prefix} (sound : PrefixSound sha1 config key p) {now : ℕ}
    {entry : DesiredAddress} (listed : entry ∈ prefixAddresses now (ofLex key).2 p) :
    entry.prefixLength = 64 ∧ ∃ iid, entry.address = join (ofLex key).1 iid ∧ reservedIid iid = false := by
  have member := (prefixAddresses_sublist now (ofLex key).2 p).subset
    (List.mem_map_of_mem (f := fun entry : DesiredAddress => (entry.address, entry.prefixLength)) listed)
  obtain ⟨address, known, same⟩ := List.mem_map.mp member
  obtain ⟨rfl, length⟩ := Prod.mk.inj same
  refine ⟨length.symm.trans sound.length, ?_⟩
  rcases List.mem_cons.mp known with stable | temporary
  · rw [stable, sound.stable]
    exact stableAddress_join sha1 config (ofLex key).1
  · obtain ⟨temp, within, address⟩ := List.mem_map.mp temporary
    rw [← address]
    exact sound.temps temp within

theorem network_of_listed {key : Ipv6Addr ×ₗ U8} {p : Prefix} (sound : PrefixSound sha1 config key p) {now : ℕ}
    {entry : DesiredAddress} (listed : entry ∈ prefixAddresses now (ofLex key).2 p) :
    network entry.address = network (ofLex key).1 := by
  obtain ⟨_, iid, address, _⟩ := mem_prefixAddresses sound listed
  rw [address, network_join]

/-- The listed pairs, in the order of the prefixes. -/
def listedPairs (e : Engine) (now : ℕ) : List (Ipv6Addr × U8) :=
  e.prefixes.entries.flatMap fun entry =>
    (prefixAddresses now (ofLex entry.1).2 entry.2).map fun entry => (entry.address, entry.prefixLength)

theorem addresses_nodup_iff (e : Engine) (now : ℕ) :
    ((e.addresses now).map fun entry => (entry.address, entry.prefixLength)).Nodup ↔
      (e.listedPairs now).Nodup := by
  have perm := (List.perm_insertionSort (· ≤ ·) (e.prefixes.entries.flatMap fun entry =>
    prefixAddresses now (ofLex entry.1).2 entry.2)).map fun entry => (entry.address, entry.prefixLength)
  rw [List.map_flatMap] at perm
  exact perm.nodup_iff

/-- A listed address is one of a stored prefix. -/
theorem listed_origin {e : Engine} {now : ℕ} {entry : DesiredAddress} (listed : entry ∈ e.addresses now) :
    ∃ key p, e.prefixes.lookup key = some p ∧ entry ∈ prefixAddresses now (ofLex key).2 p := by
  simp only [addresses, view, List.mem_insertionSort, List.mem_flatMap] at listed
  obtain ⟨owner, member, listed⟩ := listed
  exact ⟨owner.1, owner.2, (SortedMap.lookup_eq_some_iff _ _ _).mpr member, listed⟩

/-- Sound, separated prefixes list no address twice. -/
theorem wellFormed_of_separated {e : Engine} (sound : e.Sound sha1 config) (separated : e.Separated) :
    e.WellFormed := by
  have stored (entry) (member : entry ∈ e.prefixes.entries) : PrefixSound sha1 config entry.1 entry.2 :=
    sound.prefixes _ _ ((SortedMap.lookup_eq_some_iff _ _ _).mpr member)
  intro now
  refine ⟨(addresses_nodup_iff e now).mpr (List.nodup_flatMap.mpr ⟨fun entry member => ?_, ?_⟩),
    fun entry listed => ?_⟩
  · have distinct := (stored entry member).nodup.map
      (f := fun address => (address, (ofLex entry.1).2)) fun _ _ same => (Prod.mk.inj same).1
    exact distinct.sublist (prefixAddresses_sublist now _ _)
  · refine e.prefixes.sorted.imp_of_mem fun {first second} left right lt => ?_
    -- A shared address would give the two prefixes the same first half.
    intro pair inFirst inSecond
    obtain ⟨one, listedOne, rfl⟩ := List.mem_map.mp inFirst
    obtain ⟨two, listedTwo, same⟩ := List.mem_map.mp inSecond
    have halves : network (ofLex first.1).1 = network (ofLex second.1).1 := by
      rw [← network_of_listed (stored first left) listedOne, ← network_of_listed (stored second right) listedTwo,
        (Prod.mk.inj same).1]
    exact lt.ne (separated _ _ _ _ ((SortedMap.lookup_eq_some_iff _ _ _).mpr left)
      ((SortedMap.lookup_eq_some_iff _ _ _).mpr right) halves)
  · obtain ⟨key, p, stored, listed⟩ := listed_origin listed
    obtain ⟨length, iid, address, unreserved⟩ := mem_prefixAddresses (sound.prefixes key p stored) listed
    rw [address, interfaceId_join]
    exact ⟨length, unreserved⟩

/-- Two live prefixes with the same first half list one address twice. -/
theorem not_nodup_of_shared {e : Engine} (sound : e.Sound sha1 config) {now : ℕ}
    {key key' : Ipv6Addr ×ₗ U8} {p p' : Prefix} (stored : e.prefixes.lookup key = some p)
    (stored' : e.prefixes.lookup key' = some p') (live : Deadline.Ahead now p.validUntil)
    (live' : Deadline.Ahead now p'.validUntil) (differ : key ≠ key')
    (halves : network (ofLex key).1 = network (ofLex key').1) :
    ¬ ((e.addresses now).map fun entry => (entry.address, entry.prefixLength)).Nodup := by
  intro nodup
  have distinct := (addresses_nodup_iff e now).mp nodup
  have apart := (List.nodup_flatMap.mp distinct).2
  have listed {key : Ipv6Addr ×ₗ U8} {p : Prefix} (sound : PrefixSound sha1 config key p)
      (live : Deadline.Ahead now p.validUntil) :
      (stableAddress sha1 config (ofLex key).1, (64 : U8)) ∈
        (prefixAddresses now (ofLex key).2 p).map fun entry => (entry.address, entry.prefixLength) := by
    have notEnded : ¬ (p.validUntil.any fun ends => decide (ends ≤ now)) = true := fun ended =>
      Deadline.any_eq_true_iff.mp ended live
    simp only [prefixAddresses, notEnded, Bool.false_eq_true, ↓reduceIte, List.map_cons, ← sound.stable,
      sound.length, List.mem_cons, true_or]
  have first := listed (sound.prefixes _ _ stored) live
  have second := listed (sound.prefixes _ _ stored') live'
  rw [← stableAddress_congr sha1 config halves] at second
  have : Std.Symm (Function.onFun List.Disjoint fun entry : (Ipv6Addr ×ₗ U8) × Prefix =>
      (prefixAddresses now (ofLex entry.1).2 entry.2).map fun entry => (entry.address, entry.prefixLength)) :=
    ⟨fun _ _ disjoint => disjoint.symm⟩
  have disjoint := apart.forall ((SortedMap.lookup_eq_some_iff _ _ _).mp stored)
    ((SortedMap.lookup_eq_some_iff _ _ _).mp stored') fun same => differ (congrArg Prod.fst same)
  exact disjoint first second

end Listed

/-! ## The prefixes after an advertisement -/

/-- The option forms a prefix, or keeps it alive. -/
def Forms (info : PrefixInfo) : Prop := usable info = true ∧ 0 < info.valid

/-- The prefix is stored and has not ended at `now`. -/
def Alive (now : ℕ) (e : Engine) (key : Ipv6Addr ×ₗ U8) : Prop :=
  ∃ p, e.prefixes.lookup key = some p ∧ Deadline.Ahead now p.validUntil

theorem until_ahead (now : ℕ) {seconds : U32} (positive : 0 < seconds) :
    Deadline.Ahead now («until» now seconds) := by
  have lasting : 0 < seconds.toNat := positive
  unfold «until»
  split
  · exact Deadline.ahead_none now
  · rw [Deadline.ahead_some, Duration.fromSecs]
    omega

/-- A lifetime received above zero revives a prefix that has ended. -/
theorem nextValidUntil_ahead (now : ℕ) (validUntil : Option ℕ) {valid : U32} (positive : 0 < valid) :
    Deadline.Ahead now (nextValidUntil now validUntil valid) := by
  have received := until_ahead now positive
  have lasting : 0 < valid.toNat := positive
  unfold nextValidUntil
  cases validUntil with
  | none =>
    simp only [Option.map_none]
    split_ifs
    · exact received
    · simp [twoHours, Duration.fromSecs]
  | some ends =>
    simp only [Option.map_some]
    split_ifs with long short
    · exact received
    · simp only [not_or, not_lt, Duration.fromSecs] at long
      rw [Deadline.ahead_some]
      omega
    · simp [twoHours, Duration.fromSecs]

/-- A lifetime of zero does not. -/
theorem ahead_of_nextValidUntil_zero {now : ℕ} {validUntil : Option ℕ}
    (ahead : Deadline.Ahead now (nextValidUntil now validUntil 0)) : Deadline.Ahead now validUntil := by
  cases validUntil with
  | none => exact Deadline.ahead_none now
  | some ends =>
    rw [Deadline.ahead_some]
    by_contra ended
    have passed : ends - now = 0 := by omega
    simp [nextValidUntil, passed, Duration.fromSecs] at ahead

section Advertised

variable (sha1 : Bytes → BitVec 160)

/-- A prefix alive after some options was alive before, or one of them forms it. -/
theorem foldl_receivePrefix_origin (now : ℕ) (infos : List PrefixInfo) {e : Engine} {key : Ipv6Addr ×ₗ U8}
    (alive : Alive now (infos.foldl (receivePrefix sha1 now) e) key) :
    Alive now e key ∨ ∃ info ∈ infos, Forms info ∧ infoKey info = key := by
  induction infos generalizing e with
  | nil => exact .inl alive
  | cons info rest ih =>
    rcases ih alive with ⟨p, stored, ahead⟩ | ⟨other, member, forms⟩
    · have move := receivePrefix_told sha1 now e info key
      generalize result : (receivePrefix sha1 now e info).prefixes.lookup key = found at move
      cases move with
      | kept _ => exact .inl ⟨p, result.symm.trans stored, ahead⟩
      | @updated old isUsable same held =>
        obtain rfl := Option.some.inj (stored.symm.trans result)
        by_cases zero : info.valid = 0
        · refine .inl ⟨old, held, ahead_of_nextValidUntil_zero ?_⟩
          simpa only [told, zero] using ahead
        · exact .inr ⟨info, List.mem_cons_self, ⟨isUsable, (BitVec.pos_iff_ne_zero _).mpr zero⟩, same.symm⟩
      | formed isUsable same _ lasting _ =>
        exact .inr ⟨info, List.mem_cons_self, ⟨isUsable, lasting⟩, same.symm⟩
    · exact .inr ⟨other, List.mem_cons_of_mem _ member, forms⟩

/-- Options keep what is alive. -/
theorem foldl_receivePrefix_alive (now : ℕ) (infos : List PrefixInfo) {e : Engine} {key : Ipv6Addr ×ₗ U8}
    (alive : Alive now e key) : Alive now (infos.foldl (receivePrefix sha1 now) e) key := by
  obtain ⟨p, stored, ahead⟩ := alive
  obtain ⟨after, looked, extended⟩ := foldl_receivePrefix_extended sha1 now infos stored
  refine ⟨after, looked, Deadline.ahead_iff_lt_ending.mpr (lt_of_lt_of_le (lt_min ?_ ?_) extended.least)⟩
  · exact Deadline.ahead_iff_lt_ending.mp ahead
  · exact WithTop.coe_lt_coe.mpr (Nat.lt_add_of_pos_right (by decide))

/-- An option that forms a prefix leaves it alive, also after the options behind it. -/
theorem foldl_receivePrefix_forms (now : ℕ) {infos : List PrefixInfo} {info : PrefixInfo} (member : info ∈ infos)
    (forms : Forms info) (e : Engine) : Alive now (infos.foldl (receivePrefix sha1 now) e) (infoKey info) := by
  induction infos generalizing e with
  | nil => contradiction
  | cons head rest ih =>
    rcases List.mem_cons.mp member with rfl | member
    · apply foldl_receivePrefix_alive sha1 now rest
      have move := receivePrefix_told sha1 now e info (infoKey info)
      generalize result : (receivePrefix sha1 now e info).prefixes.lookup (infoKey info) = found at move
      cases move with
      | kept other =>
        obtain ⟨_, zero⟩ := other forms.1 rfl
        exact absurd zero ((BitVec.pos_iff_ne_zero _).mp forms.2)
      | updated => exact ⟨_, result, nextValidUntil_ahead now _ forms.2⟩
      | formed => exact ⟨_, result, until_ahead now forms.2⟩
    · exact ih member _

/-- The prefixes stored after an advertisement are those alive before and those its options form. -/
theorem receive_alive_iff (e : Engine) (now : ℕ) (source : Ipv6Addr) {body : Bytes} {ra : RouterAdvert}
    (decoded : RouterAdvert.decode body = some ra) (key : Ipv6Addr ×ₗ U8) :
    (∃ p, (e.receive sha1 now source body).1.prefixes.lookup key = some p) ↔
      Alive now e key ∨ ∃ info ∈ ra.prefixes, Forms info ∧ infoKey info = key := by
  have router : Alive now (e.receiveRouter now source ra) key ↔ Alive now e key := by
    rw [Alive, (e.receiveRouter_frame now source ra).1, Alive]
  have kept : (∃ p, (e.receive sha1 now source body).1.prefixes.lookup key = some p) ↔
      Alive now (ra.prefixes.foldl (receivePrefix sha1 now) (e.receiveRouter now source ra)) key := by
    rw [receive_prefixes sha1 e now source decoded]
    constructor
    · rintro ⟨p, looked⟩
      obtain ⟨rng, _, found⟩ := expire_lookup (fun (_ : U64) (_ : True) => trivial)
        (e.advertised sha1 now source ra) now trivial key
      rw [looked] at found
      obtain ⟨old, survives, _⟩ := Option.map_eq_some_iff.mp found.symm
      obtain ⟨stored, ahead⟩ := Option.filter_eq_some_iff.mp survives
      exact ⟨old, stored, Deadline.all_eq_true_iff.mp ahead⟩
    · rintro ⟨p, stored, ahead⟩
      obtain ⟨after, looked, _⟩ := expire_keeps (e.advertised sha1 now source ra) stored
        (Deadline.ahead_iff_lt_ending.mp ahead)
      exact ⟨after, looked⟩
  rw [kept]
  constructor
  · intro alive
    exact (foldl_receivePrefix_origin sha1 now ra.prefixes alive).imp_left router.mp
  · rintro (alive | ⟨info, member, forms, rfl⟩)
    · exact foldl_receivePrefix_alive sha1 now ra.prefixes (router.mpr alive)
    · exact foldl_receivePrefix_forms sha1 now member forms _

/-! ## Runs -/

/-- The advertisement brings together two prefixes that differ only in their last eight octets: it forms
one, and forms the other too or finds it alive. -/
def Clash (now : ℕ) (e : Engine) (ra : RouterAdvert) : Prop :=
  ∃ info ∈ ra.prefixes, Forms info ∧ ∃ other, other ≠ info.prefixAddr ∧
    network other = network info.prefixAddr ∧
    (Alive now e (toLex (other, 64)) ∨ ∃ info' ∈ ra.prefixes, Forms info' ∧ info'.prefixAddr = other)

/-- An operation that brings no such prefixes together. -/
def Safe (e : Engine) : Op → Prop
  | .receive now _ body => ∀ ra, RouterAdvert.decode body = some ra → ¬ Clash now e ra
  | .start _ | .tick _ => True

theorem infoKey_of_forms {info : PrefixInfo} (forms : Forms info) : infoKey info = toLex (info.prefixAddr, 64) := by
  have isUsable := forms.1
  simp only [usable, Bool.and_eq_true, beq_iff_eq] at isUsable
  rw [infoKey, isUsable.1.2]

variable {sha1} {config : Config}

theorem key_eq_of_sound {e : Engine} (sound : e.Sound sha1 config) {key : Ipv6Addr ×ₗ U8} {p : Prefix}
    (stored : e.prefixes.lookup key = some p) : key = toLex ((ofLex key).1, 64) := by
  rw [← (sound.prefixes key p stored).length]
  rfl

/-- An advertisement without a clash keeps the prefixes separated. -/
theorem receive_separated {e : Engine} (sound : e.Sound sha1 config) (separated : e.Separated) (now : ℕ)
    (source : Ipv6Addr) {body : Bytes} {ra : RouterAdvert} (decoded : RouterAdvert.decode body = some ra)
    (clear : ¬ Clash now e ra) : (e.receive sha1 now source body).1.Separated := by
  have after : (e.receive sha1 now source body).1.Sound sha1 config := next_sound e (.receive now source body) sound
  -- A formed prefix with any other stored one of the same first half would be a clash.
  have formed {info : PrefixInfo} (member : info ∈ ra.prefixes) (forms : Forms info) {key : Ipv6Addr ×ₗ U8}
      {p : Prefix} (stored : (e.receive sha1 now source body).1.prefixes.lookup key = some p)
      (halves : network (ofLex key).1 = network info.prefixAddr) : key = infoKey info := by
    by_contra differ
    have wide := key_eq_of_sound after stored
    refine clear ⟨info, member, forms, (ofLex key).1, fun same => differ ?_, halves, ?_⟩
    · rw [wide, same, infoKey_of_forms forms]
    · rcases (receive_alive_iff sha1 e now source decoded key).mp ⟨p, stored⟩ with alive | ⟨other, within, forms', rfl⟩
      · exact .inl (wide ▸ alive)
      · exact .inr ⟨other, within, forms', rfl⟩
  intro key key' p p' stored stored' halves
  rcases (receive_alive_iff sha1 e now source decoded key).mp ⟨p, stored⟩ with alive | ⟨info, member, forms, rfl⟩
  · rcases (receive_alive_iff sha1 e now source decoded key').mp ⟨p', stored'⟩ with alive' | ⟨info, member, forms, rfl⟩
    · obtain ⟨old, held, _⟩ := alive
      obtain ⟨old', held', _⟩ := alive'
      exact separated key key' old old' held held' halves
    · exact formed member forms stored halves
  · exact (formed member forms stored' halves.symm).symm

/-- Expiry removes prefixes and adds none. -/
theorem expire_older {e : Engine} {now : ℕ} {key : Ipv6Addr ×ₗ U8} {p : Prefix}
    (stored : (e.expire now).prefixes.lookup key = some p) : ∃ old, e.prefixes.lookup key = some old := by
  obtain ⟨rng, _, found⟩ := expire_lookup (fun (_ : U64) (_ : True) => trivial) e now trivial key
  rw [stored] at found
  obtain ⟨old, kept, _⟩ := Option.map_eq_some_iff.mp found.symm
  exact ⟨old, (Option.filter_eq_some_iff.mp kept).1⟩

theorem expire_separated {e : Engine} (separated : e.Separated) (now : ℕ) : (e.expire now).Separated := by
  intro key key' p p' stored stored' halves
  obtain ⟨old, held⟩ := expire_older stored
  obtain ⟨old', held'⟩ := expire_older stored'
  exact separated key key' old old' held held' halves

theorem next_separated {e : Engine} (op : Op) (sound : e.Sound sha1 config) (separated : e.Separated)
    (safe : Safe e op) : ((machine sha1).next e op).Separated := by
  cases op with
  | start now =>
    rw [next_start, Separated, start, tick_prefixes]
    exact expire_separated (e := { e with
      solicits := 0, solicitInterval := Ndp.solicitInterval, solicitAt := some now }) separated now
  | tick now =>
    rw [next_tick, Separated, tick_prefixes]
    exact expire_separated separated now
  | receive now source body =>
    rw [next_receive]
    cases decoded : RouterAdvert.decode body with
    | none =>
      rw [receive_undecodable sha1 e now source decoded]
      exact separated
    | some ra => exact receive_separated sound separated now source decoded (safe ra decoded)

/-- A prefix that is stored after an operation was stored before, or an advertisement formed it. -/
theorem next_stored {e : Engine} (op : Op) {key : Ipv6Addr ×ₗ U8} {p : Prefix}
    (stored : ((machine sha1).next e op).prefixes.lookup key = some p) :
    (∃ old, e.prefixes.lookup key = some old) ∨ ∃ now source body ra, op = .receive now source body ∧
      RouterAdvert.decode body = some ra ∧ ∃ info ∈ ra.prefixes, Forms info ∧ infoKey info = key := by
  cases op with
  | start now =>
    rw [next_start, start, tick_prefixes] at stored
    obtain ⟨old, held⟩ := expire_older stored
    exact .inl ⟨old, held⟩
  | tick now =>
    rw [next_tick, tick_prefixes] at stored
    exact .inl (expire_older stored)
  | receive now source body =>
    rw [next_receive] at stored
    cases decoded : RouterAdvert.decode body with
    | none =>
      rw [receive_undecodable sha1 e now source decoded] at stored
      exact .inl ⟨p, stored⟩
    | some ra =>
      rcases (receive_alive_iff sha1 e now source decoded key).mp ⟨p, stored⟩ with ⟨old, held, _⟩ | formed
      · exact .inl ⟨old, held⟩
      · exact .inr ⟨now, source, body, ra, rfl, decoded, formed⟩

/-- An advertisement with a clash lists an address twice at once. -/
theorem not_nodup_of_clash {e : Engine} (sound : e.Sound sha1 config) {now : ℕ} (source : Ipv6Addr) {body : Bytes}
    {ra : RouterAdvert} (decoded : RouterAdvert.decode body = some ra) (clash : Clash now e ra) :
    ¬ (((e.receive sha1 now source body).1.addresses now).map
      fun entry => (entry.address, entry.prefixLength)).Nodup := by
  have after : (e.receive sha1 now source body).1.Sound sha1 config := next_sound e (.receive now source body) sound
  obtain ⟨info, member, forms, other, differ, halves, origin⟩ := clash
  obtain ⟨p, stored⟩ := (receive_alive_iff sha1 e now source decoded (toLex (info.prefixAddr, 64))).mpr
    (.inr ⟨info, member, forms, infoKey_of_forms forms⟩)
  obtain ⟨p', stored'⟩ := (receive_alive_iff sha1 e now source decoded (toLex (other, 64))).mpr
    (origin.imp_right fun ⟨info', within, forms', same⟩ =>
      ⟨info', within, forms', same ▸ infoKey_of_forms forms'⟩)
  have live {key : Ipv6Addr ×ₗ U8} {p : Prefix}
      (stored : (e.receive sha1 now source body).1.prefixes.lookup key = some p) :
      Deadline.Ahead now p.validUntil := by
    rw [receive_prefixes sha1 e now source decoded] at stored
    exact ((e.advertised sha1 now source ra).expire_fresh now).prefixes (key, p)
      ((SortedMap.lookup_eq_some_iff _ _ _).mp stored)
  refine not_nodup_of_shared after stored' stored (live stored') (live stored) (fun same => differ ?_) halves
  exact congrArg (fun key => (ofLex key).1) same

/-- The listed addresses are well formed after every operation of a run exactly when none of its
advertisements brings together two prefixes that differ only in their last eight octets. -/
theorem wellFormed_iff_safe (config : Config) (ops : List Op) :
    (∀ earlier later, ops = earlier ++ later → ((machine sha1).run (new config) earlier).WellFormed) ↔
      ∀ earlier op later, ops = earlier ++ op :: later → Safe ((machine sha1).run (new config) earlier) op := by
  constructor
  · intro wellFormed earlier op later split
    cases op with
    | start | tick => trivial
    | receive now source body =>
      intro ra decoded clash
      have sound : Sound sha1 config ((machine sha1).run (new config) earlier) := reachable_sound config earlier
      have next := wellFormed (earlier ++ [.receive now source body]) later (by rw [split]; simp)
      rw [Transducer.run_append] at next
      exact not_nodup_of_clash sound source decoded clash (next now).1
  · intro safe earlier
    have separated (later : List Op) (split : ops = earlier ++ later) :
        ((machine sha1).run (new config) earlier).Separated := by
      induction earlier using List.reverseRecOn generalizing later with
      | nil =>
        intro key key' p p' stored
        have absent : (new config).prefixes.lookup key = none := SortedMap.lookup_empty key
        rw [Transducer.run, absent] at stored
        contradiction
      | append_singleton earlier op ih =>
        have split' : ops = earlier ++ op :: later := by rw [split]; simp
        rw [Transducer.run_append]
        exact next_separated op (reachable_sound config earlier) (ih _ split') (safe earlier op later split')
    exact fun later split => wellFormed_of_separated (reachable_sound config earlier) (separated later split)

end Advertised

/-- A prefix option for an on-link, autonomous /64. -/
def prefixOption (prefixAddr : Ipv6Addr) : Bytes :=
  [3, 4, 64, 0xc0] ++ toBeBytes 4 86400#32 ++ toBeBytes 4 14400#32 ++ [0, 0, 0, 0] ++ prefixAddr.octets

/-- One advertisement with the options 2001:db8::/64 and 2001:db8::1/64. -/
def clashingAdvert : Bytes :=
  [134, 0, 0, 0, 64, 0, 0x07, 0x08, 0, 0, 0, 0, 0, 0, 0, 0] ++
    prefixOption 0x20010db8000000000000000000000000 ++ prefixOption 0x20010db8000000000000000000000001

def clashConfig : Config where
  interface := "8ecde363-0000-5000-8000-000000000001"
  secret := List.replicate 32 7
  temporary := false
  mac := none
  seed := 1

/-- That advertisement makes a fresh engine list one address twice. -/
theorem address_listed_twice :
    ((machine fun _ => 0x0123456789abcdef0123456789abcdef01234567#160).run (new clashConfig)
        [.start 0, .receive 0 0xfe800000000000000000000000000001 clashingAdvert]).addresses 0 =
      List.replicate 2 ⟨0x20010db8000000000123456789abcdef, 64, false, true⟩ ∧
    ¬ ∀ sha1 config ops, ((machine sha1).run (new config) ops).WellFormed := by
  have listed : ((machine fun _ => 0x0123456789abcdef0123456789abcdef01234567#160).run (new clashConfig)
      [.start 0, .receive 0 0xfe800000000000000000000000000001 clashingAdvert]).addresses 0 =
      List.replicate 2 ⟨0x20010db8000000000123456789abcdef, 64, false, true⟩ := by decide +kernel
  refine ⟨listed, fun wellFormed => ?_⟩
  have nodup := (wellFormed (fun _ => 0x0123456789abcdef0123456789abcdef01234567#160) clashConfig
    [.start 0, .receive 0 0xfe800000000000000000000000000001 clashingAdvert] 0).1
  rw [listed] at nodup
  simp at nodup

end Netd.Model.Ndp.Engine
