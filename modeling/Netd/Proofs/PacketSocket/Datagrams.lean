import Netd.Math.OnesComplement
import Netd.Proofs.PacketSocket.Filter

/-! # Datagrams read back

The loop that brings the carries back makes of the sum of the words the word that stands for it, so a
checksum is the complement of the ones'-complement sum, and a header that carries it adds up to all ones.
-/

namespace Netd.Model.PacketSocket

open OnesComplement (Stands)

/-! ## Checksums -/

/-- The sum that `checksum` accumulates, before anything overflows. -/
def total (bytes : Bytes) : ℕ := ((words bytes).map BitVec.toNat).sum

theorem length_words (bytes : Bytes) : (words bytes).length = (bytes.length + 1) / 2 := by
  fun_induction words bytes with
  | case1 => rfl
  | case2 last =>
    rw [List.length_singleton, List.length_singleton]
  | case3 high low rest ih =>
    rw [List.length_cons, ih, List.length_cons, List.length_cons]
    omega

theorem sum_le (words : List U16) : (words.map BitVec.toNat).sum ≤ 65535 * words.length := by
  induction words with
  | nil => exact Nat.le_refl 0
  | cons word rest ih =>
    have bound := word.isLt
    rw [List.map_cons, List.sum_cons, List.length_cons]
    omega

/-- What is short enough not to overflow whatever it holds. -/
theorem total_lt {bytes : Bytes} (short : bytes.length ≤ 131074) : total bytes < 2 ^ 32 := by
  have bound := sum_le (words bytes)
  rw [length_words] at bound
  rw [total]
  omega

theorem toNat_accumulated {sum : U32} {words : List U16}
    (fits : sum.toNat + (words.map BitVec.toNat).sum < 2 ^ 32) :
    (words.foldl (fun sum word => sum + word.setWidth 32) sum).toNat = sum.toNat + (words.map BitVec.toNat).sum := by
  induction words generalizing sum with
  | nil => rfl
  | cons word rest ih =>
    rw [List.map_cons, List.sum_cons, ← Nat.add_assoc] at fits ⊢
    have added : (sum + word.setWidth 32).toNat = sum.toNat + word.toNat := by
      rw [BitVec.toNat_add, BitVec.toNat_setWidth_of_le (by decide), Nat.mod_eq_of_lt (by omega)]
    rw [List.foldl_cons, ih (by rwa [added]), added]

/-- However often the carries have to be brought back. -/
theorem fold_stands (sum : U32) : Stands ((fold sum).setWidth 16) sum.toNat := by
  fun_induction fold sum with
  | case1 sum small =>
    have whole : (sum.setWidth 16).toNat = sum.toNat := by
      rw [BitVec.toNat_setWidth, Nat.mod_eq_of_lt ((shiftRight_eq_zero_iff sum).mp small)]
    exact whole ▸ Stands.self _
  | case2 sum carries ih =>
    rw [toNat_foldOnce] at ih
    exact ih.of_fold

theorem checksum_eq {bytes : Bytes} (fits : total bytes < 2 ^ 32) :
    checksum bytes = ~~~OnesComplement.sum (words bytes) := by
  have nothing : (0 : U32).toNat + total bytes = total bytes := Nat.zero_add _
  have accumulated := @toNat_accumulated 0 (words bytes) (nothing ▸ fits)
  have stands := fold_stands ((words bytes).foldl (fun sum word => sum + word.setWidth 32) 0)
  rw [accumulated.trans nothing] at stands
  rw [checksum, stands.unique (OnesComplement.sum_stands (words bytes))]

/-! ## Headers -/

theorem words_append {bytes : Bytes} (even : bytes.length % 2 = 0) (more : Bytes) :
    words (bytes ++ more) = words bytes ++ words more := by
  fun_induction words bytes with
  | case1 => rfl
  | case2 last => cases even
  | case3 high low rest ih =>
    rw [List.cons_append, List.cons_append, words, ih, List.cons_append]
    rw [List.length_cons, List.length_cons] at even
    omega

/-- The header of a datagram, with what its checksum field holds. -/
def header (length sum : U16) (src dst : Ipv4Addr) : Bytes :=
  [0x45, 0x10] ++ toBeBytes 2 length ++ [0, 0, 0x40, 0, 64, 17] ++ toBeBytes 2 sum ++ (src.octets ++ dst.octets)

theorem length_header (length sum : U16) (src dst : Ipv4Addr) : (header length sum src dst).length = 20 := rfl

theorem words_toBeBytes (word : U16) : words (toBeBytes 2 word) = [word] :=
  congrArg (fun read => [read]) (@fromBeBytes_toBeBytes 16 2 word rfl)

theorem total_append {bytes : Bytes} (even : bytes.length % 2 = 0) (more : Bytes) :
    total (bytes ++ more) = total bytes + total more := by
  rw [total, words_append even, List.map_append, List.sum_append, total, total]

theorem total_header (length sum : U16) (src dst : Ipv4Addr) :
    total (header length sum src dst) = total (header length 0 src dst) + sum.toNat := by
  have field (word : U16) : total (toBeBytes 2 word) = word.toNat := by
    rw [total, words_toBeBytes, List.map_singleton, List.sum_singleton]
  have parts (word : U16) : total (header length word src dst) =
      total ([0x45, 0x10] ++ toBeBytes 2 length ++ [0, 0, 0x40, 0, 64, 17]) + word.toNat +
        total (src.octets ++ dst.octets) := by
    have even : ([0x45, 0x10] ++ toBeBytes 2 length ++ [0, 0, 0x40, 0, 64, 17] : Bytes).length % 2 = 0 := by
      simp only [List.length_append, length_toBeBytes, List.length_cons, List.length_nil]
    rw [header, total_append, total_append even, field]
    rw [List.length_append, length_toBeBytes, Nat.add_mod_right, even]
  have none : (0 : U16).toNat = 0 := rfl
  rw [parts sum, parts 0, none]
  omega

/-- A header that carries its own checksum adds up to all ones. -/
theorem checksum_header (length : U16) (src dst : Ipv4Addr) :
    checksum (header length (checksum (header length 0 src dst)) src dst) = 0 := by
  have fits (sum : U16) : total (header length sum src dst) < 2 ^ 32 := total_lt (by rw [length_header]; decide)
  rw [checksum_eq (fits _)]
  have whole := OnesComplement.sum_stands (words (header length (checksum (header length 0 src dst)) src dst))
  have ones := (OnesComplement.sum_stands (words (header length 0 src dst))).complement (by decide)
  rw [← checksum_eq (fits 0)] at ones
  rw [whole.unique ((total_header _ _ src dst).symm ▸ ones)]
  decide

/-- The checksum is written over its placeholder. -/
theorem set_header (length sum : U16) (src dst : Ipv4Addr) :
    ((header length 0 src dst).set 10 (sum.extractLsb' 8 8)).set 11 (sum.extractLsb' 0 8) =
      header length sum src dst := rfl

theorem ipUdp_eq (src dst : Ipv4Addr) (sport dport : U16) (payload : Bytes) :
    ipUdp src dst sport dport payload =
      header (BitVec.ofNat 16 (20 + (8 + payload.length)))
        (checksum (header (BitVec.ofNat 16 (20 + (8 + payload.length))) 0 src dst)) src dst ++
      (toBeBytes 2 sport ++ toBeBytes 2 dport ++ toBeBytes 2 (BitVec.ofNat 16 (8 + payload.length)) ++ [0, 0] ++
        payload) := by
  rw [ipUdp]
  generalize BitVec.ofNat 16 (20 + (8 + payload.length)) = length
  have placeholder : [0x45, 0x10] ++ toBeBytes 2 length ++ [0, 0] ++ [0x40, 0] ++ [64] ++ [17] ++ [0, 0] ++ src.octets ++
      dst.octets = header length 0 src dst := rfl
  have whole : (header length 0 src dst).take 20 = header length 0 src dst :=
    List.take_of_length_le (Nat.le_of_eq (length_header length 0 src dst))
  rw [placeholder, whole, set_header]
  simp only [List.append_assoc]

section Sent

variable (src dst : Ipv4Addr) (sport dport : U16) (payload : Bytes)

theorem length_ipUdp : (ipUdp src dst sport dport payload).length = 28 + payload.length := by
  rw [ipUdp_eq]
  simp only [List.length_append, length_header, length_toBeBytes, List.length_cons, List.length_nil]
  omega

theorem take_ipUdp : (ipUdp src dst sport dport payload).take 20 =
    header (BitVec.ofNat 16 (20 + (8 + payload.length)))
      (checksum (header (BitVec.ofNat 16 (20 + (8 + payload.length))) 0 src dst)) src dst := by
  rw [ipUdp_eq]
  exact List.take_left' (length_header _ _ src dst)

theorem drop_ipUdp : (ipUdp src dst sport dport payload).drop 28 = payload := by
  rw [ipUdp_eq, ← List.append_assoc]
  apply List.drop_left'
  simp only [List.length_append, length_header, length_toBeBytes, List.length_cons, List.length_nil]

theorem wordAt_length : wordAt (ipUdp src dst sport dport payload) 2 = some (BitVec.ofNat 16 (20 + (8 + payload.length))) := by
  rw [ipUdp_eq]
  exact congrArg some (@fromBeBytes_toBeBytes 16 2 _ rfl)

/-- A datagram to the client's port is one that the parser reads. -/
theorem toClient_ipUdp :
    ToClient (ipUdp src dst sport 68 payload) 0x45 (BitVec.ofNat 16 (8 + payload.length)) where
  long := by
    rw [length_ipUdp]
    omega
  opens := by
    rw [ipUdp_eq]
    rfl
  version := by decide
  protocol := by
    rw [ipUdp_eq]
    rfl
  behind := by
    rw [length_ipUdp]
    exact Nat.le_add_right 28 _
  port := by
    rw [ipUdp_eq]
    exact congrArg some (@fromBeBytes_toBeBytes 16 2 _ rfl)
  length := by
    rw [ipUdp_eq]
    exact congrArg some (@fromBeBytes_toBeBytes 16 2 _ rfl)

end Sent

/-- What is sent verifies, says how long it is, and reads back. -/
theorem datagrams_valid :
    (∀ bytes, total bytes < 2 ^ 32 → checksum bytes = ~~~OnesComplement.sum (words bytes)) ∧
      ∀ (src dst : Ipv4Addr) (sport dport : U16) (payload : Bytes), payload.length ≤ 65507 →
        checksum ((ipUdp src dst sport dport payload).take 20) = 0 ∧
          (wordAt (ipUdp src dst sport dport payload) 2).map BitVec.toNat =
            some (ipUdp src dst sport dport payload).length ∧
          udpPayload (ipUdp src dst sport 68 payload) = some (some payload) := by
  refine ⟨fun bytes => checksum_eq, fun src dst sport dport payload fits => ⟨?_, ?_, ?_⟩⟩
  · rw [take_ipUdp]
    exact checksum_header _ src dst
  · rw [wordAt_length, length_ipUdp, Option.map_some, BitVec.toNat_ofNat, Nat.mod_eq_of_lt (by omega)]
    congr 1
    omega
  · have client := toClient_ipUdp src dst sport payload
    have length := length_ipUdp src dst sport 68 payload
    have udpLen : (BitVec.ofNat 16 (8 + payload.length)).toNat = 8 + payload.length := by
      rw [BitVec.toNat_ofNat, Nat.mod_eq_of_lt (by omega)]
    have ihl : ((0x45 : U8) &&& 0x0f).toNat * 4 = 20 := by decide
    have past : min (20 + (8 + payload.length)) (ipUdp src dst sport 68 payload).length =
        (ipUdp src dst sport 68 payload).length := Nat.min_eq_right (by omega)
    rw [client.reads, udpLen, ihl, past, get_of_le (by omega) (Nat.le_refl _), List.take_length, drop_ipUdp]

/-- From 10.0.2.2 to everybody. -/
theorem hello_sent : checksum ((ipUdp 0x0a000202 0xffffffff 67 68 [104, 101, 108, 108, 111]).take 20) = 0 ∧
    udpPayload (ipUdp 0x0a000202 0xffffffff 67 68 [104, 101, 108, 108, 111]) = some (some [104, 101, 108, 108, 111]) ∧
    checksum [104, 101, 108] = ~~~OnesComplement.sum (words [104, 101, 108]) :=
  have sent := datagrams_valid.2 0x0a000202 0xffffffff 67 68 [104, 101, 108, 108, 111] (by decide)
  ⟨sent.1, sent.2.2, datagrams_valid.1 [104, 101, 108] (by decide)⟩

end Netd.Model.PacketSocket
