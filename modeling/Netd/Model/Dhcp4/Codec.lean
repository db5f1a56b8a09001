import Netd.Model.Dhcp4.Packet

/-! # DHCPv4 messages on the wire

`Message::encode` and `Message::decode` of `dhcp4/src/packet.rs`: a fixed header, the cookie, and options
up to an end mark or the end of the data.
-/

namespace Netd.Model.Dhcp4

def magicCookie : Bytes := [0x63, 0x82, 0x53, 0x63]

def bootRequest : U8 := 1

def bootReply : U8 := 2

def htypeEthernet : U8 := 1

def flagBroadcast : U16 := 0x8000

/-- The fixed part of a BOOTP message, before the cookie. -/
def fixedLen : ℕ := 236

abbrev option.pad : U8 := 0
abbrev option.end_ : U8 := 255

namespace Options

/-- An option; a value longer than its length octet can say is cut. -/
def encodeEntry (entry : U8 × Bytes) : Bytes :=
  let data := entry.2.take 255
  entry.1 :: BitVec.ofNat 8 data.length :: data

/-- The options of an area, or nothing if one is cut short. -/
def decode : Bytes → Option Options
  | [] => some []
  | code :: rest =>
    if code = option.pad then decode rest
    else if code = option.end_ then some []
    else
      match rest with
      | [] => none
      | length :: rest =>
        if rest.length < length.toNat then none
        else (decode (rest.drop length.toNat)).map fun options => (code, rest.take length.toNat) :: options
termination_by octets => octets.length
decreasing_by
  · exact Nat.lt_succ_self _
  · rw [List.length_drop, List.length_cons, List.length_cons]
    omega

end Options

namespace Message

/-- Everything before the options, part by part. -/
def parts (message : Message) : List Bytes :=
  [[if message.isReply then bootReply else bootRequest], [htypeEthernet], [6], [0], toBeBytes 4 message.xid,
    toBeBytes 2 message.secs, toBeBytes 2 (if message.broadcast then flagBroadcast else 0),
    Ipv4Addr.octets message.ciaddr, Ipv4Addr.octets message.yiaddr, Ipv4Addr.octets message.siaddr,
    Ipv4Addr.octets message.giaddr, toBeBytes 6 message.chaddr, List.replicate 10 0, List.replicate 64 0,
    List.replicate 128 0, magicCookie]

def header (message : Message) : Bytes := message.parts.flatten

/-- BOOTP's minimum: padded to 300 so that ancient relays are not upset. -/
def encode (message : Message) : Bytes :=
  let out := message.header ++ message.options.flatMap Options.encodeEntry ++ [option.end_]
  out ++ List.replicate (300 - out.length) 0

/-- The octets at an offset. -/
def field (octets : Bytes) (offset count : ℕ) : Bytes := (octets.drop offset).take count

def decode (octets : Bytes) : Option Message :=
  if octets.length < fixedLen + 4 then none
  else if field octets 1 1 ≠ [htypeEthernet] ∨ field octets 2 1 ≠ [6] then none
  else if field octets fixedLen 4 ≠ magicCookie then none
  else (Options.decode (octets.drop (fixedLen + 4))).map fun options =>
    { isReply := field octets 0 1 = [bootReply]
      xid := fromBeBytes (field octets 4 4)
      secs := fromBeBytes (field octets 8 2)
      broadcast := fromBeBytes (field octets 10 2) &&& flagBroadcast ≠ 0
      ciaddr := fromBeBytes (field octets 12 4)
      yiaddr := fromBeBytes (field octets 16 4)
      siaddr := fromBeBytes (field octets 20 4)
      giaddr := fromBeBytes (field octets 24 4)
      chaddr := fromBeBytes (field octets 28 6)
      options }

end Message

end Netd.Model.Dhcp4
