import Mathlib.Logic.Function.Basic
import Netd.Proofs.Ndp.TwoHours
import Netd.Proofs.Ndp.Uniqueness

/-! # The prefix list under the engine

What a host knows of the prefixes of its link is when each stops being valid and when it stops being
preferred. `PrefixList` is a machine on that alone: it forms no address and draws no number. The engine
refines it, so whatever is read from the lifetimes is the same for every configuration and generator;
and what is expired in between makes no difference to what is preferred later.
-/

namespace Netd.Model.Ndp

/-- When a prefix stops being valid, and when it stops being preferred. -/
structure Lifetimes where
  validUntil : Option ℕ
  preferredUntil : Option ℕ
deriving DecidableEq, Repr

/-- The lifetimes of the prefixes of a link. -/
abbrev PrefixList := Ipv6Addr ×ₗ U8 → Option Lifetimes

namespace PrefixList

open Engine (Op usable infoKey ahead_of_nextValidUntil_zero)

/-- The prefixes that have not ended. -/
def expire (now : ℕ) (list : PrefixList) : PrefixList := fun key =>
  (list key).filter fun l => l.validUntil.all fun moment => decide (now < moment)

/-- What an option that names a prefix makes of its lifetimes. -/
def stated (now : ℕ) (info : PrefixInfo) : Option Lifetimes → Option Lifetimes
  | some l => some ⟨nextValidUntil now l.validUntil info.valid, «until» now info.preferred⟩
  | none => if 0 < info.valid then some ⟨«until» now info.valid, «until» now info.preferred⟩ else none

def told (now : ℕ) (list : PrefixList) (info : PrefixInfo) : PrefixList := fun key =>
  if usable info = true ∧ key = infoKey info then stated now info (list key) else list key

def receive (now : ℕ) (list : PrefixList) (body : Bytes) : PrefixList :=
  match RouterAdvert.decode body with
  | none => list
  | some ra => (ra.prefixes.foldl (told now) list).expire now

def machine : Transducer PrefixList Op Unit where
  step list
    | .start now | .tick now => (list.expire now, ())
    | .receive now _ body => (list.receive now body, ())

/-- The prefix is valid and preferred. -/
def Preferred (now : ℕ) (list : PrefixList) (key : Ipv6Addr ×ₗ U8) : Prop :=
  ∃ l, list key = some l ∧ Deadline.Ahead now l.validUntil ∧ Deadline.Ahead now l.preferredUntil

/-! ## Expiry in between -/

theorem expire_eq_some {now : ℕ} {list : PrefixList} {key : Ipv6Addr ×ₗ U8} {l : Lifetimes} :
    list.expire now key = some l ↔ list key = some l ∧ Deadline.Ahead now l.validUntil := by
  rw [expire, Option.filter_eq_some_iff, Deadline.all_eq_true_iff]

/-- What ends later is not touched by an earlier expiry. -/
theorem expire_expire {first second : ℕ} (le : first ≤ second) (list : PrefixList) :
    (list.expire first).expire second = list.expire second := by
  funext key
  apply Option.ext
  intro l
  rw [expire_eq_some, expire_eq_some, expire_eq_some]
  constructor
  · rintro ⟨⟨stored, _⟩, ahead⟩
    exact ⟨stored, ahead⟩
  · rintro ⟨stored, ahead⟩
    exact ⟨⟨stored, fun moment ends => lt_of_le_of_lt le (ahead moment ends)⟩, ahead⟩

theorem expire_congr {first second : ℕ} (le : first ≤ second) {list other : PrefixList}
    (same : list.expire first = other.expire first) : list.expire second = other.expire second := by
  rw [← expire_expire le list, same, expire_expire le]

theorem preferred_expire {first second : ℕ} (le : first ≤ second) (list : PrefixList) (key : Ipv6Addr ×ₗ U8) :
    Preferred second (list.expire first) key ↔ Preferred second list key := by
  constructor
  · rintro ⟨l, stored, valid, preferred⟩
    exact ⟨l, (expire_eq_some.mp stored).1, valid, preferred⟩
  · rintro ⟨l, stored, valid, preferred⟩
    refine ⟨l, expire_eq_some.mpr ⟨stored, fun moment ends => ?_⟩, valid, preferred⟩
    exact lt_of_le_of_lt le (valid moment ends)

/-- An option treats a prefix that has ended as one that is not there. -/
theorem stated_ended (now : ℕ) (info : PrefixInfo) {l : Lifetimes} (ended : ¬ Deadline.Ahead now l.validUntil) :
    (stated now info (some l)).filter (fun l => l.validUntil.all fun moment => decide (now < moment)) =
      (stated now info none).filter fun l => l.validUntil.all fun moment => decide (now < moment) := by
  obtain ⟨validUntil, preferredUntil⟩ := l
  cases validUntil with
  | none => exact absurd (Deadline.ahead_none now) ended
  | some ends =>
    rw [Deadline.ahead_some] at ended
    have passed : ends - now = 0 := by omega
    by_cases lasting : 0 < info.valid
    · have positive : 0 < info.valid.toNat := lasting
      have received : 0 < Duration.fromSecs info.valid.toNat := Nat.mul_pos positive (by decide)
      have revived : nextValidUntil now (some ends) info.valid = «until» now info.valid := by
        simp only [nextValidUntil, Option.map_some, passed]
        rw [if_pos (.inr received)]
      simp only [stated, revived, if_pos lasting]
    · have zero : info.valid = 0 := BitVec.eq_of_toNat_eq (Nat.le_zero.mp (not_lt.mp lasting))
      have dead : ¬ Deadline.Ahead now (nextValidUntil now (some ends) info.valid) := by
        rw [zero]
        exact fun ahead => ended (Deadline.ahead_some.mp (ahead_of_nextValidUntil_zero ahead))
      rw [stated, stated, if_neg lasting, Option.filter_none, Option.filter_some,
        if_neg (fun all => dead (Deadline.all_eq_true_iff.mp all))]

theorem told_congr {now : ℕ} {list other : PrefixList} (same : list.expire now = other.expire now)
    (info : PrefixInfo) : (list.told now info).expire now = (other.told now info).expire now := by
  funext key
  have here := congrFun same key
  simp only [expire, told] at here ⊢
  split
  · -- The lifetimes are the same, or what differs has ended on both sides.
    have ended (l : Option Lifetimes)
        (gone : (l.filter fun l => l.validUntil.all fun moment => decide (now < moment)) = none) :
        (stated now info l).filter (fun l => l.validUntil.all fun moment => decide (now < moment)) =
          (stated now info none).filter fun l => l.validUntil.all fun moment => decide (now < moment) := by
      cases l with
      | none => rfl
      | some l =>
        apply stated_ended
        intro ahead
        rw [Option.filter_some, if_pos (Deadline.all_eq_true_iff.mpr ahead)] at gone
        contradiction
    cases live : (list key).filter fun l => l.validUntil.all fun moment => decide (now < moment) with
    | none => rw [ended _ live, ended _ (here.symm.trans live)]
    | some l =>
      rw [(Option.filter_eq_some_iff.mp live).1, (Option.filter_eq_some_iff.mp (here.symm.trans live)).1]
  · exact here

theorem receive_congr {now : ℕ} {list other : PrefixList} (same : list.expire now = other.expire now)
    (body : Bytes) : (list.receive now body).expire now = (other.receive now body).expire now := by
  unfold receive
  split
  · exact same
  · next ra _ =>
    rw [expire_expire le_rfl, expire_expire le_rfl]
    exact List.foldl_rel (r := fun list other : PrefixList => list.expire now = other.expire now) same
      fun info _ _ _ same => told_congr same info

/-- An advertisement, and no timer. -/
def isReceive : Op → Bool
  | .receive .. => true
  | .start _ | .tick _ => false

/-- Operations at instants that do not go back and do not pass `now`. -/
structure InOrder (now : ℕ) (ops : List Op) : Prop where
  ordered : (ops.map Op.time).Pairwise (· ≤ ·)
  past : ∀ op ∈ ops, op.time ≤ now

/-- Lists that agree on what has not ended at `begun` agree at `now`, though one of them had no timers. -/
theorem run_filter {begun now : ℕ} (le : begun ≤ now) {ops : List Op} (inOrder : InOrder now ops)
    (later : ∀ op ∈ ops, begun ≤ op.time) {list other : PrefixList}
    (same : list.expire begun = other.expire begun) :
    (machine.run list ops).expire now = (machine.run other (ops.filter isReceive)).expire now := by
  induction ops generalizing begun list other with
  | nil => exact expire_congr le same
  | cons op rest ih =>
    have reached : op.time ≤ now := inOrder.past op List.mem_cons_self
    obtain ⟨following, ordered⟩ := List.pairwise_cons.mp inOrder.ordered
    have tail : InOrder now rest := ⟨ordered, fun op member => inOrder.past op (List.mem_cons_of_mem _ member)⟩
    have onward : ∀ next ∈ rest, op.time ≤ next.time := fun next member => following _ (List.mem_map_of_mem member)
    have here : list.expire op.time = other.expire op.time := expire_congr (later op List.mem_cons_self) same
    cases op with
    | start moment | tick moment => exact ih reached tail onward ((expire_expire le_rfl list).trans here)
    | receive moment source body => exact ih reached tail onward (receive_congr here body)

/-- The timers in between make no difference to what is valid at an instant after them all. -/
theorem run_receives {now : ℕ} {ops : List Op} (inOrder : InOrder now ops) (list : PrefixList) :
    (machine.run list ops).expire now = (machine.run list (ops.filter isReceive)).expire now :=
  run_filter (Nat.zero_le now) inOrder (fun op _ => Nat.zero_le op.time) rfl

end PrefixList

/-! ## The engine refines the list -/

namespace Engine

/-- The lifetimes an engine holds. -/
def prefixList (e : Engine) : PrefixList := fun key =>
  (e.prefixes.lookup key).map fun p => ⟨p.validUntil, p.preferredUntil⟩

theorem prefixList_eq_some {e : Engine} {key : Ipv6Addr ×ₗ U8} {l : Lifetimes} :
    e.prefixList key = some l ↔ ∃ p, e.prefixes.lookup key = some p ∧ ⟨p.validUntil, p.preferredUntil⟩ = l :=
  Option.map_eq_some_iff

theorem prefixList_congr {e other : Engine} (same : e.prefixes = other.prefixes) :
    e.prefixList = other.prefixList := by
  funext key
  rw [prefixList, same, prefixList]

theorem expire_prefixList (e : Engine) (now : ℕ) : (e.expire now).prefixList = e.prefixList.expire now := by
  funext key
  obtain ⟨rng, _, looked⟩ := expire_lookup (fun (_ : U64) (_ : True) => trivial) e now trivial key
  rw [prefixList, looked, PrefixList.expire, prefixList]
  cases e.prefixes.lookup key with
  | none => rfl
  | some p =>
    rw [Option.filter_some, Option.map_some, Option.filter_some]
    split
    · rw [Option.map_some, Option.map_some, refreshed_validUntil, refreshed_preferredUntil]
    · rfl

section Refinement

variable (sha1 : Bytes → BitVec 160)

theorem receivePrefix_prefixList (now : ℕ) (e : Engine) (info : PrefixInfo) :
    (receivePrefix sha1 now e info).prefixList = e.prefixList.told now info := by
  funext key
  have move := receivePrefix_told sha1 now e info key
  rw [prefixList, PrefixList.told, prefixList]
  generalize (receivePrefix sha1 now e info).prefixes.lookup key = found at move
  cases move with
  | kept other =>
    split
    · next about =>
      obtain ⟨absent, zero⟩ := other about.1 about.2
      rw [absent, Option.map_none, PrefixList.stated, zero]
      rfl
    · rfl
  | updated isUsable same stored =>
    rw [if_pos ⟨isUsable, same⟩, stored]
    rfl
  | formed isUsable same absent lasting _ =>
    rw [if_pos ⟨isUsable, same⟩, absent, Option.map_none, PrefixList.stated, if_pos lasting]
    rfl

theorem receive_prefixList (e : Engine) (now : ℕ) (source : Ipv6Addr) (body : Bytes) :
    (e.receive sha1 now source body).1.prefixList = e.prefixList.receive now body := by
  unfold PrefixList.receive
  split
  · next undecodable => rw [receive_undecodable sha1 e now source undecodable]
  · next ra decoded =>
    have folded : (ra.prefixes.foldl (receivePrefix sha1 now) (e.receiveRouter now source ra)).prefixList =
        ra.prefixes.foldl (PrefixList.told now) e.prefixList := by
      rw [← prefixList_congr (e.receiveRouter_frame now source ra).1]
      exact (List.foldl_hom prefixList fun e info => (receivePrefix_prefixList sha1 now e info).symm).symm
    rw [prefixList_congr (receive_prefixes sha1 e now source decoded), expire_prefixList, ← folded]
    exact congrArg (PrefixList.expire now) (prefixList_congr (advertised_prefixes sha1 e now source ra))

theorem tick_prefixList (e : Engine) (now : ℕ) : (e.tick now).1.prefixList = e.prefixList.expire now := by
  rw [prefixList_congr (tick_prefixes e now), expire_prefixList]

theorem next_prefixList (e : Engine) (op : Op) :
    ((machine sha1).next e op).prefixList = PrefixList.machine.next e.prefixList op := by
  cases op with
  | start now =>
    change (start e now).1.prefixList = e.prefixList.expire now
    rw [start, tick_prefixList]
    rfl
  | tick now => exact tick_prefixList e now
  | receive now source body => exact receive_prefixList sha1 e now source body

/-- After any operations the engine holds the lifetimes of the prefix list, whatever its configuration. -/
theorem run_prefixList (config : Config) (ops : List Op) :
    ((machine sha1).run (new config) ops).prefixList = PrefixList.machine.run (fun _ => none) ops :=
  (machine sha1).run_abstract prefixList (next_prefixList sha1) (new config) ops

end Refinement

end Engine

end Netd.Model.Ndp
