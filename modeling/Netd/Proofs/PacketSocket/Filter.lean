import Netd.Model.PacketSocket
import Netd.Proofs.Octets

/-! # The filter and the parser

The kernel's filter and `udp_payload` look at the same octets of a packet: its protocol, the length of its
header, and the port behind the header. The filter alone looks for fragments, the parser alone at the
version and at the lengths.
-/

namespace Netd.Model.PacketSocket

/-! ## What the loads load -/

theorem fetch_byte (packet : Bytes) (index : ℕ) :
    Bpf.fetch packet index .byte = packet[index]?.map fun octet => octet.setWidth 32 := by
  by_cases inside : index < packet.length
  · have there : (packet.drop index).take 1 = [packet[index]] := by
      rw [List.drop_eq_getElem_cons inside]
      rfl
    rw [Bpf.fetch, if_pos (by exact inside), Bpf.Width.octets, there, List.getElem?_eq_getElem inside]
    exact congrArg some (BitVec.zero_or)
  · rw [Bpf.fetch, if_neg (by exact inside), List.getElem?_eq_none (Nat.le_of_not_lt inside)]
    rfl

theorem wordAt_of_le {packet : Bytes} {index : ℕ} (inside : index + 2 ≤ packet.length) :
    wordAt packet index = some (fromBeBytes ((packet.drop index).take 2)) := by
  have there : (packet.drop index).take 2 = [packet[index], packet[index + 1]] := by
    rw [List.drop_eq_getElem_cons (by omega), List.drop_eq_getElem_cons (by omega)]
    rfl
  rw [wordAt, List.getElem?_eq_getElem (by omega), List.getElem?_eq_getElem (by omega), there]
  rfl

theorem wordAt_eq_none {packet : Bytes} {index : ℕ} (outside : ¬index + 2 ≤ packet.length) :
    wordAt packet index = none := by
  rw [wordAt, @List.getElem?_eq_none _ packet (index + 1) (by omega)]
  cases packet[index]? <;> rfl

theorem fetch_half (packet : Bytes) (index : ℕ) :
    Bpf.fetch packet index .half = (wordAt packet index).map fun word => word.setWidth 32 := by
  by_cases inside : index + 2 ≤ packet.length
  · have length : ((packet.drop index).take 2).length = 2 := by
      rw [List.length_take, List.length_drop]
      omega
    rw [Bpf.fetch, if_pos (by exact inside), wordAt_of_le inside, Option.map_some,
      setWidth_fromBeBytes (by rw [length])]
    rfl
  · rw [Bpf.fetch, if_neg (by exact inside), wordAt_eq_none inside]
    rfl

/-! ## What the program accepts, from its end -/

section Program

variable (packet : Bytes) (a x : BitVec 32)

theorem passes_accept : Bpf.Passes packet (program.drop 7) 0 a x := (Bpf.passes_ret rfl).mpr (by decide)

theorem not_passes_reject : ¬Bpf.Passes packet (program.drop 8) 0 a x :=
  fun passes => (Bpf.passes_ret rfl).mp passes (by decide)

theorem passes_port : Bpf.Passes packet (program.drop 6) 0 a x ↔ a = 68 := by
  by_cases same : a = 68
  · have holds : Bpf.Test.eq.holds a 68 = true := beq_iff_eq.mpr same
    exact iff_of_true ((Bpf.passes_jump_of_holds rfl holds).mpr (passes_accept packet a x)) same
  · have fails : Bpf.Test.eq.holds a 68 = false := beq_eq_false_iff_ne.mpr same
    exact iff_of_false (fun passes => not_passes_reject packet a x ((Bpf.passes_jump_of_fails rfl fails).mp passes)) same

theorem passes_word : Bpf.Passes packet (program.drop 5) 0 a x ↔ wordAt packet (x.toNat + 2) = some 68 := by
  refine (Bpf.passes_loadIndexed rfl).trans ?_
  rw [fetch_half]
  constructor
  · rintro ⟨value, loaded, passes⟩
    obtain ⟨word, there, rfl⟩ := Option.map_eq_some_iff.mp loaded
    have same : word.setWidth 32 = (68#16).setWidth 32 := (passes_port packet _ x).mp passes
    obtain rfl := (setWidth_inj (by decide)).mp same
    exact there
  · intro there
    exact ⟨68, Option.map_eq_some_iff.mpr ⟨68, there, rfl⟩, (passes_port packet _ x).mpr rfl⟩

theorem toNat_headerLength (first : U8) :
    (4 * (first.setWidth 32 &&& 0xf) : BitVec 32).toNat = 4 * (first &&& 0x0f).toNat := by
  have low : (first &&& 0x0f).setWidth 32 = first.setWidth 32 &&& 0xf := BitVec.setWidth_and
  have bound := (first &&& 0x0f).isLt
  rw [← low, BitVec.toNat_mul, BitVec.toNat_setWidth_of_le (by decide)]
  exact Nat.mod_eq_of_lt (by change 4 * _ < _; omega)

/-- The length of the header is taken from the first octet. -/
theorem passes_behind_header : Bpf.Passes packet (program.drop 4) 0 a x ↔
    ∃ first, packet[0]? = some first ∧ wordAt packet (4 * (first &&& 0x0f).toNat + 2) = some 68 := by
  refine (Bpf.passes_loadHeaderLength rfl).trans ?_
  rw [fetch_byte]
  constructor
  · rintro ⟨value, loaded, passes⟩
    obtain ⟨first, there, rfl⟩ := Option.map_eq_some_iff.mp loaded
    have word := (passes_word packet a _).mp passes
    rw [toNat_headerLength] at word
    exact ⟨first, there, word⟩
  · rintro ⟨first, there, word⟩
    refine ⟨_, Option.map_eq_some_iff.mpr ⟨first, there, rfl⟩, (passes_word packet a _).mpr ?_⟩
    rw [toNat_headerLength]
    exact word

theorem passes_fragment : Bpf.Passes packet (program.drop 3) 0 a x ↔
    a &&& 0x3fff = 0 ∧ Bpf.Passes packet (program.drop 4) 0 a x := by
  by_cases fragment : a &&& 0x3fff = 0
  · have fails : Bpf.Test.set.holds a 0x3fff = false := bne_eq_false_iff_eq.mpr fragment
    rw [and_iff_right fragment]
    exact Bpf.passes_jump_of_fails rfl fails
  · have holds : Bpf.Test.set.holds a 0x3fff = true := bne_iff_ne.mpr fragment
    refine iff_of_false (fun passes => ?_) fun both => fragment both.1
    exact not_passes_reject packet a x ((Bpf.passes_jump_of_holds rfl holds).mp passes)

/-- The flags and the offset of a fragment are the low 14 bits. -/
theorem passes_whole : Bpf.Passes packet (program.drop 2) 0 a x ↔
    (∃ flags, wordAt packet 6 = some flags ∧ flags &&& 0x3fff = 0) ∧
      ∃ first, packet[0]? = some first ∧ wordAt packet (4 * (first &&& 0x0f).toNat + 2) = some 68 := by
  refine (Bpf.passes_load rfl).trans ?_
  rw [fetch_half]
  have masked (flags : U16) : flags.setWidth 32 &&& 0x3fff = 0 ↔ flags &&& 0x3fff = 0 := by
    have low : (flags &&& 0x3fff).setWidth 32 = flags.setWidth 32 &&& 0x3fff := BitVec.setWidth_and
    rw [← low]
    exact setWidth_inj (b := 0#16) (by decide)
  constructor
  · rintro ⟨value, loaded, passes⟩
    obtain ⟨flags, there, rfl⟩ := Option.map_eq_some_iff.mp loaded
    obtain ⟨whole, behind⟩ := (passes_fragment packet _ x).mp passes
    exact ⟨⟨flags, there, (masked flags).mp whole⟩, (passes_behind_header packet _ x).mp behind⟩
  · rintro ⟨⟨flags, there, whole⟩, behind⟩
    refine ⟨_, Option.map_eq_some_iff.mpr ⟨flags, there, rfl⟩, (passes_fragment packet _ x).mpr ⟨?_, ?_⟩⟩
    · exact (masked flags).mpr whole
    · exact (passes_behind_header packet _ x).mpr behind

theorem passes_protocol : Bpf.Passes packet (program.drop 1) 0 a x ↔
    a = 17 ∧ Bpf.Passes packet (program.drop 2) 0 a x := by
  by_cases udp : a = 17
  · have holds : Bpf.Test.eq.holds a 17 = true := beq_iff_eq.mpr udp
    rw [and_iff_right udp]
    exact Bpf.passes_jump_of_holds rfl holds
  · have fails : Bpf.Test.eq.holds a 17 = false := beq_eq_false_iff_ne.mpr udp
    refine iff_of_false (fun passes => ?_) fun both => udp both.1
    exact not_passes_reject packet a x ((Bpf.passes_jump_of_fails rfl fails).mp passes)

end Program

theorem accepts_iff (packet : Bytes) : Bpf.Accepts program packet ↔
    packet[9]? = some 17 ∧ (∃ flags, wordAt packet 6 = some flags ∧ flags &&& 0x3fff = 0) ∧
      ∃ first, packet[0]? = some first ∧ wordAt packet (4 * (first &&& 0x0f).toNat + 2) = some 68 := by
  refine (Bpf.passes_load rfl).trans ?_
  rw [fetch_byte]
  constructor
  · rintro ⟨value, loaded, passes⟩
    obtain ⟨protocol, there, rfl⟩ := Option.map_eq_some_iff.mp loaded
    obtain ⟨udp, whole⟩ := (passes_protocol packet _ 0).mp passes
    obtain rfl : protocol = 17 := (setWidth_inj (b := 17#8) (by decide)).mp udp
    exact ⟨there, (passes_whole packet _ 0).mp whole⟩
  · rintro ⟨there, whole⟩
    refine ⟨17, Option.map_eq_some_iff.mpr ⟨17, there, rfl⟩, (passes_protocol packet _ 0).mpr ⟨rfl, ?_⟩⟩
    exact (passes_whole packet _ 0).mpr whole

/-! ## What the parser reads -/

theorem get_of_le {packet : Bytes} {start past : ℕ} (order : start ≤ past) (inside : past ≤ packet.length) :
    get packet start past = some ((packet.take past).drop start) := if_pos ⟨order, inside⟩

/-- What the parser asks of a packet. -/
structure ToClient (packet : Bytes) (first : U8) (udpLen : U16) : Prop where
  long : 20 ≤ packet.length
  opens : packet[0]? = some first
  version : first >>> 4 = 4
  protocol : packet[9]? = some 17
  behind : (first &&& 0x0f).toNat * 4 + 8 ≤ packet.length
  port : wordAt packet ((first &&& 0x0f).toNat * 4 + 2) = some 68
  length : wordAt packet ((first &&& 0x0f).toNat * 4 + 4) = some udpLen

/-- The parser reads what is to the client, says nothing of anything else, and never looks past the end. -/
theorem udpPayload_cases (packet : Bytes) :
    (∃ first udpLen, ToClient packet first udpLen ∧ udpPayload packet =
      some (get packet ((first &&& 0x0f).toNat * 4 + 8)
        (min ((first &&& 0x0f).toNat * 4 + udpLen.toNat) packet.length))) ∨
      ((¬∃ first udpLen, ToClient packet first udpLen) ∧ udpPayload packet = some none) := by
  rw [udpPayload]
  by_cases long : packet.length < 20
  · rw [if_pos long]
    exact .inr ⟨fun ⟨_, _, there⟩ => absurd there.long (Nat.not_le.mpr long), rfl⟩
  have opens : packet[0]? = some packet[0] := List.getElem?_eq_getElem (by omega)
  have ninth : packet[9]? = some packet[9] := List.getElem?_eq_getElem (by omega)
  rw [if_neg long, opens, ninth, Option.bind_some, Option.bind_some]
  generalize packet[0] = first at opens
  generalize packet[9] = protocol at ninth
  by_cases version : first >>> 4 ≠ 4
  · rw [if_pos version]
    refine .inr ⟨fun ⟨_, _, there⟩ => version ?_, rfl⟩
    obtain rfl := Option.some.inj (opens.symm.trans there.opens)
    exact there.version
  rw [if_neg version]
  by_cases udp : protocol ≠ 17 ∨ packet.length < (first &&& 0x0f).toNat * 4 + 8
  · rw [if_pos udp]
    refine .inr ⟨fun ⟨_, _, there⟩ => ?_, rfl⟩
    obtain rfl := Option.some.inj (opens.symm.trans there.opens)
    have behind := there.behind
    rcases udp with other | short
    · exact other (Option.some.inj (ninth.symm.trans there.protocol))
    · omega
  rw [if_neg udp]
  obtain ⟨protocol_eq, behind⟩ : protocol = 17 ∧ (first &&& 0x0f).toNat * 4 + 8 ≤ packet.length := by
    simpa only [not_or, not_not, Nat.not_lt] using udp
  obtain ⟨dport, port⟩ : ∃ dport, wordAt packet ((first &&& 0x0f).toNat * 4 + 2) = some dport :=
    ⟨_, wordAt_of_le (by omega)⟩
  obtain ⟨udpLen, length⟩ : ∃ udpLen, wordAt packet ((first &&& 0x0f).toNat * 4 + 4) = some udpLen :=
    ⟨_, wordAt_of_le (by omega)⟩
  rw [port, length, Option.bind_some, Option.map_some]
  by_cases client : dport ≠ clientPort
  · rw [if_pos client]
    refine .inr ⟨fun ⟨_, _, there⟩ => client ?_, rfl⟩
    obtain rfl := Option.some.inj (opens.symm.trans there.opens)
    exact Option.some.inj (port.symm.trans there.port)
  rw [if_neg client]
  subst protocol_eq
  obtain rfl : dport = clientPort := not_not.mp client
  exact .inl ⟨first, udpLen, ⟨Nat.not_lt.mp long, opens, not_not.mp version, ninth, behind, port, length⟩, rfl⟩

/-- There is only one reading of a packet. -/
theorem ToClient.reads {packet : Bytes} {first : U8} {udpLen : U16} (client : ToClient packet first udpLen) :
    udpPayload packet = some (get packet ((first &&& 0x0f).toNat * 4 + 8)
      (min ((first &&& 0x0f).toNat * 4 + udpLen.toNat) packet.length)) := by
  obtain ⟨other, otherLen, there, reads⟩ | ⟨none, -⟩ := udpPayload_cases packet
  · obtain rfl := Option.some.inj (client.opens.symm.trans there.opens)
    obtain rfl := Option.some.inj (client.length.symm.trans there.length)
    exact reads
  · exact absurd ⟨first, udpLen, client⟩ none

theorem accepts_of_toClient {packet : Bytes} {first : U8} {udpLen : U16} (client : ToClient packet first udpLen)
    (whole : ∀ flags, wordAt packet 6 = some flags → flags &&& 0x3fff = 0) : Bpf.Accepts program packet := by
  have flags := @wordAt_of_le packet 6 (by have := client.long; omega)
  refine (accepts_iff packet).mpr ⟨client.protocol, ⟨_, flags, whole _ flags⟩, first, client.opens, ?_⟩
  rw [Nat.mul_comm]
  exact client.port

theorem toClient_of_accepts {packet : Bytes} {first : U8} {udpLen : U16} (accepts : Bpf.Accepts program packet)
    (long : 20 ≤ packet.length) (opens : packet[0]? = some first) (version : first >>> 4 = 4)
    (behind : (first &&& 0x0f).toNat * 4 + 8 ≤ packet.length)
    (length : wordAt packet ((first &&& 0x0f).toNat * 4 + 4) = some udpLen) : ToClient packet first udpLen := by
  obtain ⟨protocol, -, other, same, port⟩ := (accepts_iff packet).mp accepts
  obtain rfl := Option.some.inj (opens.symm.trans same)
  rw [Nat.mul_comm] at port
  exact ⟨long, opens, version, protocol, behind, port, length⟩

/-- A packet whose data the parser hands on has passed the filter unless it is a fragment, and one that has
passed the filter and is as long as it says is handed on. -/
theorem filter_agrees (packet : Bytes) :
    (Bpf.run packet program 0 0 0).isSome = true ∧
      (Bpf.Accepts program packet ↔
        packet[9]? = some 17 ∧ (∃ flags, wordAt packet 6 = some flags ∧ flags &&& 0x3fff = 0) ∧
          ∃ first, packet[0]? = some first ∧ wordAt packet (4 * (first &&& 0x0f).toNat + 2) = some 68) ∧
      (udpPayload packet).isSome = true ∧
      (∀ payload, udpPayload packet = some (some payload) →
        (∀ flags, wordAt packet 6 = some flags → flags &&& 0x3fff = 0) → Bpf.Accepts program packet) ∧
      ∀ (first : U8) (udpLen : U16), Bpf.Accepts program packet → 20 ≤ packet.length → packet[0]? = some first →
        first >>> 4 = 4 → (first &&& 0x0f).toNat * 4 + 8 ≤ packet.length →
          wordAt packet ((first &&& 0x0f).toNat * 4 + 4) = some udpLen → 8 ≤ udpLen.toNat →
            udpPayload packet = some (some
              ((packet.take (min ((first &&& 0x0f).toNat * 4 + udpLen.toNat) packet.length)).drop
                ((first &&& 0x0f).toNat * 4 + 8))) := by
  refine ⟨Bpf.run_isSome packet (by decide) (by decide) 0 0, accepts_iff packet, ?_, ?_, ?_⟩
  · obtain ⟨first, udpLen, -, reads⟩ | ⟨-, reads⟩ := udpPayload_cases packet
    · rw [reads]
      rfl
    · rw [reads]
      rfl
  · intro payload reads whole
    obtain ⟨first, udpLen, client, -⟩ | ⟨-, silent⟩ := udpPayload_cases packet
    · exact accepts_of_toClient client whole
    · cases silent.symm.trans reads
  · intro first udpLen accepts long opens version behind length enough
    have client := toClient_of_accepts accepts long opens version behind length
    rw [client.reads, get_of_le (by omega) (Nat.min_le_right _ _)]

/-- Two octets of data from port 67 to port 68. -/
def offerPacket : Bytes :=
  [0x45, 0, 0, 30, 0, 0, 0x40, 0, 64, 17, 0, 0, 10, 0, 2, 2, 255, 255, 255, 255, 0, 67, 0, 68, 0, 10, 0, 0, 1, 2]

theorem offer_accepted : Bpf.Accepts program offerPacket ∧ udpPayload offerPacket = some (some [1, 2]) := by
  have unsplit : wordAt offerPacket 6 = some 0x4000 := by decide +kernel
  have accepted := (filter_agrees offerPacket).2.2.2.1 [1, 2] (by decide +kernel) fun flags there => by
    obtain rfl := Option.some.inj (unsplit.symm.trans there)
    decide
  exact ⟨accepted, (filter_agrees offerPacket).2.2.2.2 0x45 10 accepted (by decide) rfl (by decide) (by decide)
    (by decide +kernel) (by decide)⟩

end Netd.Model.PacketSocket
