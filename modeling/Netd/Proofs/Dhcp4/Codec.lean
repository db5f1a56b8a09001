import Netd.Model.Dhcp4.Codec
import Netd.Proofs.Octets

/-! # Messages survive the wire

An options area is read by a grammar: pads and complete options up to an end mark or the end of the data.
What was read from one is in the range of the writer, and what was written reads back.
-/

namespace Netd.Model.Dhcp4

/-! ## Options -/

/-- An area and the options it holds. -/
inductive Area : Bytes → Options → Prop
  | done : Area [] []
  | ended (rest : Bytes) : Area (option.end_ :: rest) []
  | pad {rest : Bytes} {options : Options} (area : Area rest options) : Area (option.pad :: rest) options
  | entry {code length : U8} {data rest : Bytes} {options : Options} (notPad : code ≠ option.pad)
      (notEnd : code ≠ option.end_) (whole : data.length = length.toNat) (area : Area rest options) :
      Area (code :: length :: (data ++ rest)) ((code, data) :: options)

/-- An option that can be written: its code is no mark, and its length octet can say how long it is. -/
def Writable (entry : U8 × Bytes) : Prop :=
  1 ≤ entry.1.toNat ∧ entry.1.toNat ≤ 254 ∧ entry.2.length ≤ 255

namespace Options

/-- What is read from an area is what the grammar says. -/
theorem decode_area {octets : Bytes} {options : Options} (area : Area octets options) :
    decode octets = some options := by
  induction area with
  | done => rw [decode]
  | ended rest =>
    rw [decode.eq_def]
    dsimp only
    rw [if_neg (by decide), if_pos rfl]
  | pad _ ih =>
    rw [decode.eq_def]
    dsimp only
    rw [if_pos rfl, ih]
  | @entry code length data rest options notPad notEnd whole _ ih =>
    have enough : ¬(data ++ rest).length < length.toNat := by
      rw [List.length_append]
      omega
    rw [decode.eq_def]
    dsimp only
    rw [if_neg notPad, if_neg notEnd, if_neg enough, ← whole, List.drop_left, List.take_left, ih]
    rfl

/-- Whatever is read is read by the grammar. -/
theorem area_of_decode {octets : Bytes} {options : Options} (read : decode octets = some options) :
    Area octets options := by
  fun_induction decode octets generalizing options with
  | case1 =>
    obtain rfl := Option.some.inj read
    exact .done
  | case2 rest ih => exact .pad (ih read)
  | case3 rest _ =>
    obtain rfl := Option.some.inj read
    exact .ended rest
  | case4 | case5 => contradiction
  | case6 code notPad notEnd length rest enough ih =>
    obtain ⟨later, found, rfl⟩ := Option.map_eq_some_iff.mp read
    have whole : (rest.take length.toNat).length = length.toNat := by
      rw [List.length_take]
      omega
    conv => arg 1; rw [← List.take_append_drop length.toNat rest]
    exact .entry notPad notEnd whole (ih found)

theorem writable_of_area {octets : Bytes} {options : Options} (area : Area octets options) :
    ∀ entry ∈ options, Writable entry := by
  induction area with
  | done | ended => exact List.forall_mem_nil _
  | pad _ ih => exact ih
  | @entry code length data rest options notPad notEnd whole _ ih =>
    refine List.forall_mem_cons.mpr ⟨⟨?_, ?_, ?_⟩, ih⟩
    · exact Nat.pos_of_ne_zero fun zero => notPad (BitVec.eq_of_toNat_eq zero)
    · have bounded := code.isLt
      have other : code.toNat ≠ 255 := fun last => notEnd (BitVec.eq_of_toNat_eq last)
      change code.toNat ≤ 254
      omega
    · have bounded := length.isLt
      change data.length ≤ 255
      omega

/-- What was written is an area that holds the options. -/
theorem area_encode {options : Options} (writable : ∀ entry ∈ options, Writable entry) (rest : Bytes) :
    Area (options.flatMap encodeEntry ++ option.end_ :: rest) options := by
  induction options with
  | nil => exact .ended rest
  | cons entry later ih =>
    obtain ⟨⟨first, last, short⟩, others⟩ := List.forall_mem_cons.mp writable
    obtain ⟨code, data⟩ := entry
    have spelled : encodeEntry (code, data) = code :: BitVec.ofNat 8 data.length :: data := by
      rw [encodeEntry]
      dsimp only
      rw [List.take_of_length_le short]
    rw [List.flatMap_cons, spelled, List.append_assoc, List.cons_append, List.cons_append]
    refine .entry ?_ ?_ ?_ (ih others)
    · rintro rfl
      exact Nat.not_succ_le_zero 0 first
    · rintro rfl
      exact Nat.not_succ_le_self 254 last
    · rw [BitVec.toNat_ofNat, Nat.mod_eq_of_lt (Nat.lt_succ_of_le short)]

end Options

/-! ## Messages -/

namespace Message

/-- A part of the header stands behind the parts before it. -/
theorem field_part {parts : List Bytes} (tail : Bytes) {k offset count : ℕ} {part : Bytes} (found : parts[k]? = some part)
    (before : ((parts.take k).map List.length).sum = offset) (length : part.length = count) :
    field (parts.flatten ++ tail) offset count = part := by
  obtain ⟨inside, rfl⟩ := List.getElem?_eq_some_iff.mp found
  have split : parts.flatten ++ tail =
      (parts.take k).flatten ++ (parts[k] ++ ((parts.drop (k + 1)).flatten ++ tail)) := by
    conv_lhs => rw [← List.take_append_drop k parts, List.drop_eq_getElem_cons inside]
    rw [List.flatten_append, List.flatten_cons, List.append_assoc, List.append_assoc]
  rw [field, split, List.drop_left' (by rw [List.length_flatten, before]), List.take_left' length]

theorem lengths (message : Message) :
    message.parts.map List.length = [1, 1, 1, 1, 4, 2, 2, 4, 4, 4, 4, 6, 10, 64, 128, 4] := by
  simp only [parts, Ipv4Addr.octets, List.map_cons, List.map_nil, length_toBeBytes, List.length_replicate,
    magicCookie, List.length_cons, List.length_nil]

theorem length_header (message : Message) : message.header.length = 240 := by
  rw [header, List.length_flatten, lengths]
  rfl

theorem field_header (message : Message) (tail : Bytes) {k offset : ℕ} {part : Bytes}
    (found : message.parts[k]? = some part)
    (before : ([1, 1, 1, 1, 4, 2, 2, 4, 4, 4, 4, 6, 10, 64, 128, 4].take k).sum = offset) :
    field (message.header ++ tail) offset part.length = part := by
  refine field_part tail found ?_ rfl
  rw [List.map_take, lengths, before]

theorem encode_eq (message : Message) :
    ∃ zeros, message.encode =
      message.header ++ (message.options.flatMap Options.encodeEntry ++ option.end_ :: zeros) := by
  rw [encode, List.append_assoc, List.append_assoc, List.append_assoc, List.singleton_append]
  exact ⟨_, rfl⟩

/-- What stands before the options, field by field. -/
theorem decode_header (message : Message) (tail : Bytes) :
    decode (message.header ++ tail) = (Options.decode tail).map fun options => { message with options } := by
  have long : ¬(message.header ++ tail).length < fixedLen + 4 := by
    rw [List.length_append, length_header]
    exact Nat.not_lt.mpr (Nat.le_add_right 240 _)
  have op : field (message.header ++ tail) 0 1 = [if message.isReply then bootReply else bootRequest] :=
    message.field_header tail (k := 0) rfl rfl
  have ethernet : field (message.header ++ tail) 1 1 = [htypeEthernet] := message.field_header tail (k := 1) rfl rfl
  have length : field (message.header ++ tail) 2 1 = [6] := message.field_header tail (k := 2) rfl rfl
  have xid : field (message.header ++ tail) 4 4 = toBeBytes 4 message.xid :=
    message.field_header tail (k := 4) rfl rfl
  have secs : field (message.header ++ tail) 8 2 = toBeBytes 2 message.secs :=
    message.field_header tail (k := 5) rfl rfl
  have flags : field (message.header ++ tail) 10 2 =
      toBeBytes 2 (if message.broadcast then flagBroadcast else 0) := message.field_header tail (k := 6) rfl rfl
  have ciaddr : field (message.header ++ tail) 12 4 = toBeBytes 4 message.ciaddr :=
    message.field_header tail (k := 7) rfl rfl
  have yiaddr : field (message.header ++ tail) 16 4 = toBeBytes 4 message.yiaddr :=
    message.field_header tail (k := 8) rfl rfl
  have siaddr : field (message.header ++ tail) 20 4 = toBeBytes 4 message.siaddr :=
    message.field_header tail (k := 9) rfl rfl
  have giaddr : field (message.header ++ tail) 24 4 = toBeBytes 4 message.giaddr :=
    message.field_header tail (k := 10) rfl rfl
  have chaddr : field (message.header ++ tail) 28 6 = toBeBytes 6 message.chaddr :=
    message.field_header tail (k := 11) rfl rfl
  have cookie : field (message.header ++ tail) fixedLen 4 = magicCookie :=
    message.field_header tail (k := 15) rfl rfl
  have options : (message.header ++ tail).drop (fixedLen + 4) = tail := List.drop_left' message.length_header
  have marked : ¬(field (message.header ++ tail) 1 1 ≠ [htypeEthernet] ∨ field (message.header ++ tail) 2 1 ≠ [6]) :=
    fun wrong => wrong.elim (fun h => h ethernet) fun h => h length
  have reply : decide (field (message.header ++ tail) 0 1 = [bootReply]) = message.isReply := by
    rw [op]
    cases message.isReply <;> rfl
  have broadcast : decide (fromBeBytes (field (message.header ++ tail) 10 2) &&& flagBroadcast ≠ 0) =
      message.broadcast := by
    rw [flags, fromBeBytes_toBeBytes _ rfl]
    cases message.broadcast <;> rfl
  rw [decode, if_neg long, if_neg marked, if_neg (not_not.mpr cookie), options, reply, broadcast, xid, secs, ciaddr,
    yiaddr, siaddr, giaddr, chaddr]
  simp only [fromBeBytes_toBeBytes _ rfl]

/-- Whatever can be written reads back. -/
theorem decode_encode {message : Message} (writable : ∀ entry ∈ message.options, Writable entry) :
    decode message.encode = some message := by
  obtain ⟨zeros, spelled⟩ := message.encode_eq
  rw [spelled, decode_header, Options.decode_area (Options.area_encode writable zeros)]
  rfl

/-- What is read is a message exactly if the header is whole and marked, and the rest is an area. -/
theorem decode_isSome_iff (octets : Bytes) :
    (∃ message, decode octets = some message) ↔
      240 ≤ octets.length ∧ field octets 1 1 = [htypeEthernet] ∧ field octets 2 1 = [6] ∧
        field octets 236 4 = magicCookie ∧ ∃ options, Area (octets.drop 240) options := by
  constructor
  · rintro ⟨message, read⟩
    rw [decode] at read
    split at read
    · contradiction
    split at read
    · contradiction
    split at read
    · contradiction
    rename_i long marked cookie
    obtain ⟨options, found, -⟩ := Option.map_eq_some_iff.mp read
    obtain ⟨ethernet, length⟩ := not_or.mp marked
    exact ⟨Nat.not_lt.mp long, not_not.mp ethernet, not_not.mp length, not_not.mp cookie, options,
      Options.area_of_decode found⟩
  · rintro ⟨long, ethernet, length, cookie, options, area⟩
    have marked : ¬(field octets 1 1 ≠ [htypeEthernet] ∨ field octets 2 1 ≠ [6]) :=
      fun wrong => wrong.elim (fun h => h ethernet) fun h => h length
    have enough : ¬octets.length < fixedLen + 4 := Nat.not_lt.mpr long
    have cookied : field octets fixedLen 4 = magicCookie := cookie
    have read : Options.decode (octets.drop (fixedLen + 4)) = some options := Options.decode_area area
    rw [decode, if_neg enough, if_neg marked, if_neg (not_not.mpr cookied), read]
    exact ⟨_, rfl⟩

/-- A message that was read has options that can be written. -/
theorem writable_of_decode {octets : Bytes} {message : Message} (read : decode octets = some message) :
    ∀ entry ∈ message.options, Writable entry := by
  rw [decode] at read
  split at read
  · contradiction
  split at read
  · contradiction
  split at read
  · contradiction
  obtain ⟨options, found, rfl⟩ := Option.map_eq_some_iff.mp read
  exact Options.writable_of_area (Options.area_of_decode found)

/-- The codec: what can be written reads back, what was read can be written and reads back, and what reads
is what the grammar says. -/
theorem codec :
    (∀ message : Message, (∀ entry ∈ message.options, Writable entry) → decode message.encode = some message) ∧
      (∀ octets message, decode octets = some message → decode message.encode = some message) ∧
        ∀ octets, (∃ message, decode octets = some message) ↔
          240 ≤ octets.length ∧ field octets 1 1 = [htypeEthernet] ∧ field octets 2 1 = [6] ∧
            field octets 236 4 = magicCookie ∧ ∃ options, Area (octets.drop 240) options :=
  ⟨fun _ => decode_encode, fun _ _ read => decode_encode (writable_of_decode read), decode_isSome_iff⟩

/-- An offer with two routers options. -/
def offer : Message where
  isReply := true
  xid := 0x1234abcd
  secs := 3
  broadcast := true
  ciaddr := 0
  yiaddr := 0xc0a80142
  siaddr := 0
  giaddr := 0
  chaddr := 0x020000000001
  options := [(option.messageType, [2]), (option.router, [192, 168, 1, 1]), (option.router, []), (254, [0, 255])]

theorem offer_reads_back :
    (∀ entry ∈ offer.options, Writable entry) ∧ decode offer.encode = some offer ∧
      ∃ options, Area (offer.encode.drop 240) options := by
  have writable : ∀ entry ∈ offer.options, Writable entry := by
    unfold Writable
    decide
  have read := codec.1 offer writable
  exact ⟨writable, read, ((codec.2.2 offer.encode).mp ⟨offer, read⟩).2.2.2.2⟩

end Message

end Netd.Model.Dhcp4
