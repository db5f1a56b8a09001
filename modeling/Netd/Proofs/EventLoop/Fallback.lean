import Netd.Proofs.Dhcp4.Shape
import Netd.Proofs.EventLoop.Lifecycle
import Netd.Proofs.Interface.Offers

/-! # The self-assigned IPv4 address

A modulus and an offset keep the address out of the first and the last 256 of its block, whatever the
seed, and an interface takes it from nowhere else. In a build that checks its arithmetic there is an
address only where the product of the fallback seed fits, and the product is formed for every link.
-/

namespace Netd.Model.Interface

open Dhcp4 (checkedAdd checkedAdd_eq checkedMul checkedMul_eq checkedMul_eq_none checkedRem checkedShr checkedSub
  checkedSub_eq)

/-- 169.254.1.0 to 169.254.254.255, the part of the block for self-assignment. -/
def Assignable (address : Ipv4Addr) : Prop := 0xa9fe0100#32 ≤ address ∧ address ≤ 0xa9fefeff#32

/-- The first and the last 256 of 169.254.0.0/16. -/
def Reserved (address : Ipv4Addr) : Prop :=
  (0xa9fe0000#32 ≤ address ∧ address ≤ 0xa9fe00ff#32) ∨ (0xa9feff00#32 ≤ address ∧ address ≤ 0xa9feffff#32)

theorem Assignable.not_reserved {address : Ipv4Addr} (assignable : Assignable address) : ¬Reserved address := by
  simp only [Assignable, Reserved, BitVec.le_def, BitVec.toNat_ofNat] at assignable ⊢
  omega

/-! ## One address -/

/-- The number behind the block's own octets. -/
theorem toNat_host (seed : U32) :
    (256 + seed % (65024 - 256) : U32).toNat = 256 + seed.toNat % 64768 := by
  have hosts : ((65024 : U32) - 256).toNat = 64768 := by decide
  have offset : (256 : U32).toNat = 256 := by decide
  have below : seed.toNat % 64768 < 64768 := Nat.mod_lt _ (by decide)
  rw [BitVec.toNat_add, BitVec.toNat_umod, hosts, offset]
  omega

theorem toNat_block (host : U32) (small : host.toNat < 2 ^ 16) :
    (0xa9fe#16 ++ host.setWidth 16 : Ipv4Addr).toNat = 0xa9fe0000 + host.toNat := by
  have low : (host.setWidth 16).toNat = host.toNat := by
    rw [BitVec.toNat_setWidth, Nat.mod_eq_of_lt small]
  rw [BitVec.toNat_append, low, ← Nat.shiftLeft_add_eq_or_of_lt small]
  simp only [BitVec.toNat_ofNat, Nat.shiftLeft_eq]

theorem linkLocalFor_assignable (mac : Option Mac) (index : U32) : Assignable (linkLocalFor mac index) := by
  unfold linkLocalFor
  dsimp only
  generalize (mac.map fun m => m.setWidth 32).getD (index * 2654435761) = seed
  have host := toNat_host seed
  have below : seed.toNat % 64768 < 64768 := Nat.mod_lt _ (by decide)
  have address := toNat_block (256 + seed % (65024 - 256)) (by omega)
  constructor
  all_goals
    rw [BitVec.le_def, address, host]
    simp only [BitVec.toNat_ofNat]
    omega

/-! ## The same with its overflows -/

/-- `linkLocalFor`, with its overflows: the product is formed whether or not there is a MAC. -/
def linkLocalForChecked (mac : Option Mac) (index : U32) : Option Ipv4Addr :=
  (checkedMul index 2654435761).bind fun product =>
    (checkedSub (65024 : U32) 256).bind fun hosts =>
      (checkedRem ((mac.map fun m => m.setWidth 32).getD product) hosts).bind fun rest =>
        (checkedAdd 256 rest).bind fun host =>
          (checkedShr host 8).map fun high => 0xa9fe#16 ++ (high.setWidth 8 ++ host.setWidth 8)

/-- The two octets of the host are its low sixteen bits. -/
theorem octets_host (host : U32) : (host >>> 8).setWidth 8 ++ host.setWidth 8 = host.setWidth 16 := by
  apply BitVec.eq_of_getLsbD_eq
  intro bit inside
  rw [BitVec.getLsbD_append, BitVec.getLsbD_setWidth, BitVec.getLsbD_setWidth, BitVec.getLsbD_setWidth,
    BitVec.getLsbD_ushiftRight, decide_eq_true inside, Bool.true_and]
  by_cases low : bit < 8
  · rw [if_pos low, decide_eq_true low, Bool.true_and]
  · rw [if_neg low, decide_eq_true (by omega : bit - 8 < 8), Bool.true_and, Nat.add_sub_cancel' (not_lt.mp low)]

/-- Once the product fits everything else does, and the address is that of the wrapping operations. -/
theorem linkLocalForChecked_eq (mac : Option Mac) (index : U32) : linkLocalForChecked mac index =
    if index.toNat ≤ 1 then some (linkLocalFor mac index) else none := by
  have factor : (2654435761 : U32).toNat = 2654435761 := by decide
  rw [linkLocalForChecked]
  by_cases fits : index.toNat ≤ 1
  · rw [if_pos fits, checkedMul_eq (by rw [factor]; omega), Option.bind_some, linkLocalFor]
    generalize (mac.map fun m => m.setWidth 32).getD (index * 2654435761) = seed
    have hosts : (256 : U32).toNat ≤ (65024 : U32).toNat := by decide
    have rest : checkedRem seed (65024 - 256) = some (seed % (65024 - 256)) := if_neg (by decide)
    have below : (seed % (65024 - 256) : U32).toNat < 64768 := Nat.mod_lt _ (by decide)
    have room : (256 : U32).toNat + (seed % (65024 - 256) : U32).toNat < 2 ^ 32 := by
      have offset : (256 : U32).toNat = 256 := by decide
      omega
    have high (host : U32) : checkedShr host 8 = some (host >>> 8) := if_pos (by decide)
    rw [checkedSub_eq hosts, Option.bind_some, rest, Option.bind_some, checkedAdd_eq room, Option.bind_some,
      high, Option.map_some, octets_host]
  · rw [if_neg fits, checkedMul_eq_none (by rw [factor]; omega), Option.bind_none]

/-! ## One interface -/

/-- The self-assigned address of an interface, if it has one, was computed for some link. -/
def SelfAssigned (i : Interface) : Prop := ∀ address ∈ i.linkLocal, ∃ mac index, address = linkLocalFor mac index

theorem SelfAssigned.congr {i j : Interface} (own : SelfAssigned i) (same : j.linkLocal = i.linkLocal) :
    SelfAssigned j := by
  rw [SelfAssigned, same]
  exact own

theorem SelfAssigned.beside {i j : Interface} (own : SelfAssigned i) (only : Ipv6Only i j) : SelfAssigned j := by
  obtain ⟨_, _, rfl⟩ := only
  exact own

theorem SelfAssigned.of_none {i : Interface} (none : i.linkLocal = none) : SelfAssigned i := by
  rw [SelfAssigned, none]
  exact nofun

/-- An offer takes the address away, and only the report that none came makes one. -/
theorem performAction_selfAssigned {r : Interface × Bool} (own : SelfAssigned r.1) (action : Dhcp4.Action) :
    SelfAssigned (performAction r action).1 := by
  obtain ⟨i, changed⟩ := r
  cases action with
  | send message destination => exact own
  | bound lease => exact .of_none rfl
  | noOffer =>
    simp only [performAction]
    split_ifs
    · rintro _ ⟨⟩
      exact ⟨i.link.mac, i.link.index, rfl⟩
    · exact own.congr rfl
  | lost =>
    simp only [performAction]
    split_ifs
    · exact own
    · exact own.congr rfl

theorem perform_selfAssigned {i : Interface} (own : SelfAssigned i) (actions : List Dhcp4.Action) :
    SelfAssigned (i.perform actions).1 := by
  have every (r : Interface × Bool) (own : SelfAssigned r.1) :
      SelfAssigned (actions.foldl performAction r).1 := by
    induction actions generalizing r with
    | nil => exact own
    | cons action rest ih => exact ih _ (performAction_selfAssigned own action)
  apply every
  rw [finishRestart]
  split_ifs <;> exact own.congr rfl

theorem handle_selfAssigned (sha1 : Bytes → BitVec 160) {i : Interface} (own : SelfAssigned i) (event : Event) :
    SelfAssigned (i.handle sha1 event).1 := by
  have moved (c : Dhcp4.Client) (actions : List Dhcp4.Action) :
      SelfAssigned ({ i with dhcp := some c }.perform actions).1 := by
    refine perform_selfAssigned ?_ actions
    exact own.congr rfl
  cases event with
  | message now message =>
    rw [handle, receiveMessage]
    cases i.dhcp with
    | none => exact own
    | some c => exact moved (c.receive now message).1 (c.receive now message).2
  | advert now message => exact own.beside ((handle_ipv6 sha1 i now).1 message)
  | datagram now datagram => exact own.beside ((handle_ipv6 sha1 i now).2.1 datagram)
  | tickDhcp now =>
    rw [handle, tickDhcp]
    cases i.dhcp with
    | none => exact perform_selfAssigned own _
    | some c => exact moved (c.tick now).1 (c.tick now).2
  | tickNdp now => exact own.beside (handle_ipv6 sha1 i now).2.2.1
  | tickDhcp6 now => exact own.beside (handle_ipv6 sha1 i now).2.2.2
  | renew now =>
    rw [handle, renew]
    cases i.dhcp with
    | none => exact own
    | some c => exact moved (c.renewNow now).1 (c.renewNow now).2

theorem syncLink_selfAssigned {i : Interface} (own : SelfAssigned i) (link : Link) (outcome : Outcome) :
    SelfAssigned (i.syncLink link outcome) := by
  obtain stopped | ⟨same, -⟩ := syncLink_cases i link outcome
  · exact .of_none stopped.linkLocal
  · rw [same]
    exact own.congr rfl

theorem startDhcpWhereDue_selfAssigned {i : Interface} (own : SelfAssigned i) (env : Environment) :
    SelfAssigned (i.startDhcpWhereDue env) := by
  obtain same | ⟨_, _, _, _, stopped⟩ | ⟨p, mac, _, _, _, started⟩ := startDhcpWhereDue_outcomes i env
  · rw [same]
    exact own
  · rw [stopped]
    exact .of_none rfl
  · rw [started]
    refine perform_selfAssigned ?_ _
    exact own.congr rfl

theorem next_selfAssigned (sha1 : Bytes → BitVec 160) (slot : Option Interface) (step : Step)
    (own : ∀ i ∈ slot, SelfAssigned i) : ∀ i ∈ (slots sha1).next slot step, SelfAssigned i := by
  intro after there
  cases step with
  | sight s =>
    obtain ⟨link, -, rfl⟩ := Option.map_eq_some_iff.mp there
    have before : SelfAssigned (slot.getD (Interface.new s.ifid link)) := by
      cases slot with
      | none => exact .of_none rfl
      | some i => exact own i rfl
    have started := startDhcpWhereDue_selfAssigned (syncLink_selfAssigned before link s.outcome) s.env
    exact started.beside (startIpv6WhereDue_ipv6 _ s.env)
  | event event =>
    obtain ⟨i, was, rfl⟩ := Option.map_eq_some_iff.mp there
    exact handle_selfAssigned sha1 (own i was) event

theorem reached_selfAssigned (sha1 : Bytes → BitVec 160) (steps : List Step) :
    ∀ i ∈ (slots sha1).run none steps, SelfAssigned i := by
  have empty : ∀ i ∈ (none : Option Interface), SelfAssigned i := by simp
  exact (slots sha1).run_invariant (next_selfAssigned sha1) empty steps

/-! ## What is wanted -/

/-- The IPv4 addresses of a desired state, by where they come from. -/
theorem mem_desired_addresses {i : Interface} {now : ℕ} {d : Reconcile.Desired} (wanted : i.desired now = some d)
    {entry : Ipv4Addr × U8} (listed : entry ∈ d.addresses) :
    (∃ p, i.outcome = .join p ∧ entry ∈ statics4 p.address.statics) ∨ entry ∈ leaseAddresses i.lease ∨
      i.linkLocal = some entry.1 ∨ entry ∈ restartAddresses i.restart := by
  cases outcome : i.outcome with
  | ignore =>
    rw [desired, outcome] at wanted
    split_ifs at wanted
  | down =>
    rw [desired, outcome] at wanted
    split_ifs at wanted
    obtain rfl := Option.some.inj wanted
    exact absurd listed List.not_mem_nil
  | join p =>
    rw [desired_join outcome] at wanted
    split_ifs at wanted
    obtain rfl := Option.some.inj wanted
    rw [joined_addresses, List.mem_append, List.mem_append, List.mem_append] at listed
    obtain ((named | leased) | fallback) | kept := listed
    · exact .inl ⟨p, rfl, named⟩
    · exact .inr (.inl leased)
    · rw [linkLocalAddresses] at fallback
      split_ifs at fallback
      · obtain ⟨address, there, rfl⟩ := List.mem_map.mp fallback
        exact .inr (.inr (.inl (Option.mem_toList.mp there)))
      · exact absurd fallback List.not_mem_nil
    · exact .inr (.inr (.inr kept))

/-- Where the arithmetic is checked there is an address, and it is in the range for self-assignment, exactly
on links whose product fits. Where it wraps every address is in that range, and a reserved one that
an interface wants, after any life, was written into a profile, leased or kept over a restart. -/
theorem link_local_in_range_iff (sha1 : Bytes → BitVec 160) (mac : Option Mac) (index : U32) :
    ((∃ address, linkLocalForChecked mac index = some address ∧ Assignable address) ↔ index.toNat ≤ 1) ∧
      (index.toNat ≤ 1 → linkLocalForChecked mac index = some (linkLocalFor mac index)) ∧
      Assignable (linkLocalFor mac index) ∧
      ∀ steps, ∀ i ∈ (slots sha1).run none steps, ∀ now, ∀ d ∈ i.desired now, ∀ entry ∈ d.addresses,
        Reserved entry.1 → (∃ p, i.outcome = .join p ∧ entry ∈ statics4 p.address.statics) ∨
          entry ∈ leaseAddresses i.lease ∨ entry ∈ restartAddresses i.restart := by
  have assignable := linkLocalFor_assignable mac index
  refine ⟨⟨?_, fun fits => ⟨linkLocalFor mac index, ?_, assignable⟩⟩, fun fits => ?_, assignable, ?_⟩
  · rintro ⟨address, computed, -⟩
    rw [linkLocalForChecked_eq] at computed
    by_contra large
    rw [if_neg large] at computed
    contradiction
  · rw [linkLocalForChecked_eq, if_pos fits]
  · rw [linkLocalForChecked_eq, if_pos fits]
  · intro steps i there now d wanted entry listed reserved
    obtain named | leased | fallback | kept := mem_desired_addresses wanted listed
    · exact .inl named
    · exact .inr (.inl leased)
    · obtain ⟨mac, index, computed⟩ := reached_selfAssigned sha1 steps i there entry.1 fallback
      rw [computed] at reserved
      exact absurd reserved (linkLocalFor_assignable mac index).not_reserved
    · exact .inr (.inr kept)

/-- The second link of a machine overflows, whether or not it has a MAC. -/
theorem second_link_overflows :
    linkLocalForChecked none 2 = none ∧ linkLocalForChecked (some 0x020000000001#48) 2 = none ∧
      ¬∀ mac index, ∃ address, linkLocalForChecked mac index = some address ∧ Assignable address := by
  have overflows (mac : Option Mac) : linkLocalForChecked mac 2 = none := linkLocalForChecked_eq mac 2
  refine ⟨overflows none, overflows (some 0x020000000001#48), fun every => ?_⟩
  obtain ⟨address, computed, -⟩ := every none 2
  cases (overflows none).symm.trans computed

/-- A link whose DHCPv4 client hears nothing. -/
def unanswered : List Step :=
  .sight { sighting with
    outcome := .join { path := "office", enabled := true, address := { offered := true, linkLocal := true }, dns := {} } } ::
  [10, 60, 120, 180, 240].map fun seconds => .event (.tickDhcp (Duration.fromSecs seconds))

/-- It gets 169.254.1.1, which is not reserved. -/
theorem unanswered_link_local :
    ∃ i ∈ (slots fun _ => 0).run none unanswered, ∃ d ∈ i.desired 0,
      d.addresses = [(linkLocalFor i.link.mac i.link.index, 16)] ∧
        Assignable (linkLocalFor i.link.mac i.link.index) := by
  have listed : (((slots fun _ => 0).run none unanswered).any fun i => (i.desired 0).any fun d =>
      d.addresses == [(linkLocalFor i.link.mac i.link.index, 16)]) = true := by decide +kernel
  obtain ⟨i, there, listed⟩ := (Option.any_eq_true _ _).mp listed
  obtain ⟨d, wanted, listed⟩ := (Option.any_eq_true _ _).mp listed
  have range := link_local_in_range_iff (fun _ => 0) i.link.mac i.link.index
  exact ⟨i, there, d, wanted, eq_of_beq listed, range.2.2.1⟩

end Netd.Model.Interface
