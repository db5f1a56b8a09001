import Netd.Machine.PacketFilter
import Netd.Model.Core.Data

/-! # Datagrams on a packet socket

The filter of `attach_filter`, `checksum`, `ip_udp` and `udp_payload` of `netd/src/dhcp.rs`. Indexing is
checked, so that a read past the end of a packet shows.
-/

namespace Netd.Model.PacketSocket

def clientPort : U16 := 68

/-- The program that `attach_filter` hands to the kernel. -/
def program : List Bpf.Insn :=
  [⟨0x30, 0, 0, 9⟩, -- ldb [9]
    ⟨0x15, 0, 6, 17⟩, -- jeq #17
    ⟨0x28, 0, 0, 6⟩, -- ldh [6]
    ⟨0x45, 4, 0, 0x3fff⟩, -- jset #0x3fff
    ⟨0xb1, 0, 0, 0⟩, -- ldxb 4*([0]&0xf)
    ⟨0x48, 0, 0, 2⟩, -- ldh [x+2]
    ⟨0x15, 0, 1, 68⟩, -- jeq #68
    ⟨0x06, 0, 0, 0xffff⟩, -- ret #65535
    ⟨0x06, 0, 0, 0⟩] -- ret #0

/-- The words of `bytes.chunks(2)`, the last one filled up with a zero octet. -/
def words : Bytes → List U16
  | [] => []
  | [last] => [fromBeBytes [last, 0]]
  | high :: low :: rest => fromBeBytes [high, low] :: words rest

/-- One round of the loop that adds the carries back in. -/
def foldOnce (sum : U32) : U32 := (sum &&& 0xffff#32) + sum >>> 16

theorem toNat_foldOnce (sum : U32) : (foldOnce sum).toNat = sum.toNat % 2 ^ 16 + sum.toNat / 2 ^ 16 := by
  have bound := sum.isLt
  have low : (sum &&& 0xffff#32).toNat = sum.toNat % 2 ^ 16 := by
    rw [BitVec.toNat_and]
    exact Nat.and_two_pow_sub_one_eq_mod sum.toNat 16
  rw [foldOnce, BitVec.toNat_add, low, BitVec.toNat_ushiftRight, Nat.shiftRight_eq_div_pow]
  omega

theorem shiftRight_eq_zero_iff (sum : U32) : sum >>> 16 = 0 ↔ sum.toNat < 2 ^ 16 := by
  rw [← BitVec.toNat_inj, BitVec.toNat_ushiftRight, Nat.shiftRight_eq_div_pow]
  change sum.toNat / 2 ^ 16 = 0 ↔ _
  omega

def fold (sum : U32) : U32 := if sum >>> 16 = 0 then sum else fold (foldOnce sum)
termination_by sum.toNat
decreasing_by
  have carries := (shiftRight_eq_zero_iff sum).not.mp ‹_›
  rw [toNat_foldOnce]
  omega

def checksum (bytes : Bytes) : U16 :=
  let sum := (words bytes).foldl (fun sum word => sum + word.setWidth 32) (0 : U32)
  ~~~(fold sum).setWidth 16

def ipUdp (src dst : Ipv4Addr) (sport dport : U16) (payload : Bytes) : Bytes :=
  let udpLen := 8 + payload.length
  let total := 20 + udpLen
  let out : Bytes := [0x45, 0x10] ++ toBeBytes 2 (BitVec.ofNat 16 total) ++ [0, 0] ++ [0x40, 0] ++ [64] ++ [17] ++
    [0, 0] ++ src.octets ++ dst.octets
  let sum := checksum (out.take 20)
  let out := (out.set 10 (sum.extractLsb' 8 8)).set 11 (sum.extractLsb' 0 8)
  out ++ toBeBytes 2 sport ++ toBeBytes 2 dport ++ toBeBytes 2 (BitVec.ofNat 16 udpLen) ++ [0, 0] ++ payload

/-- `packet.get(start..end)`. -/
def get (packet : Bytes) (start past : ℕ) : Option Bytes :=
  if start ≤ past ∧ past ≤ packet.length then some ((packet.take past).drop start) else none

/-- `u16::from_be_bytes([packet[at], packet[at + 1]])`, or nothing where an index is out of bounds. -/
def wordAt (packet : Bytes) (index : ℕ) : Option U16 :=
  packet[index]?.bind fun high => packet[index + 1]?.map fun low => fromBeBytes [high, low]

/-- Nothing on the outside where an index is out of bounds. -/
def udpPayload (packet : Bytes) : Option (Option Bytes) :=
  if packet.length < 20 then some none
  else
    packet[0]?.bind fun first : U8 =>
      if first >>> 4 ≠ 4 then some none
      else
        let ihl := (first &&& 0x0f).toNat * 4
        packet[9]?.bind fun protocol : U8 =>
          if protocol ≠ 17 ∨ packet.length < ihl + 8 then some none
          else
            (wordAt packet (ihl + 2)).bind fun dport =>
              if dport ≠ clientPort then some none
              else
                (wordAt packet (ihl + 4)).map fun udpLen =>
                  get packet (ihl + 8) (min (ihl + udpLen.toNat) packet.length)

end Netd.Model.PacketSocket
