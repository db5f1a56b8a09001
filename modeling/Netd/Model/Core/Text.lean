import Netd.Model.Core.Data

/-! # Text from octets

`from_utf8` and `from_utf8_lossy` of the standard library, over one decoder: `utf8Next` consumes
either one well-formed scalar value or one maximal ill-formed subpart, which the lossy conversion
replaces by U+FFFD and the strict one refuses.
-/

namespace Netd.Model

/-- How many octets a lead octet announces; zero for one that leads nothing. -/
def utf8CharWidth (lead : U8) : ℕ :=
  if lead.toNat < 0x80 then 1
  else if 0xc2 ≤ lead.toNat ∧ lead.toNat ≤ 0xdf then 2
  else if 0xe0 ≤ lead.toNat ∧ lead.toNat ≤ 0xef then 3
  else if 0xf0 ≤ lead.toNat ∧ lead.toNat ≤ 0xf4 then 4
  else 0

/-- A continuation octet, `10xxxxxx`. -/
def isContinuation (octet : U8) : Bool := 0x80 ≤ octet.toNat && octet.toNat ≤ 0xbf

/-- The second octets a three- or four-octet lead admits: no overlong form, no surrogate, nothing
past U+10FFFF. -/
def secondOctet (lead second : U8) : Bool :=
  let low := if lead = 0xe0#8 then 0xa0 else if lead = 0xf0#8 then 0x90 else 0x80
  let high := if lead = 0xed#8 then 0x9f else if lead = 0xf4#8 then 0x8f else 0xbf
  low ≤ second.toNat && second.toNat ≤ high

/-- The six payload bits of a continuation octet. -/
def payload (octet : U8) : ℕ := octet.toNat % 64

/-- The scalar value at the front, or `none` for a maximal ill-formed subpart, with the rest. -/
def utf8Next (lead : U8) (rest : Bytes) : Option Char × Bytes :=
  match utf8CharWidth lead, rest with
  | 1, rest => (some (Char.ofNat lead.toNat), rest)
  | 2, second :: rest =>
    if isContinuation second then (some (Char.ofNat (lead.toNat % 32 * 64 + payload second)), rest)
    else (none, second :: rest)
  | 3, second :: rest =>
    if secondOctet lead second then
      match rest with
      | third :: rest =>
        if isContinuation third then
          (some (Char.ofNat ((lead.toNat % 16 * 64 + payload second) * 64 + payload third)), rest)
        else (none, third :: rest)
      | [] => (none, [])
    else (none, second :: rest)
  | 4, second :: rest =>
    if secondOctet lead second then
      match rest with
      | third :: rest =>
        if isContinuation third then
          match rest with
          | fourth :: rest =>
            if isContinuation fourth then
              (some (Char.ofNat (((lead.toNat % 8 * 64 + payload second) * 64 + payload third) * 64 +
                payload fourth)), rest)
            else (none, fourth :: rest)
          | [] => (none, [])
        else (none, third :: rest)
      | [] => (none, [])
    else (none, second :: rest)
  | _, rest => (none, rest)

theorem utf8Next_length (lead : U8) (rest : Bytes) : (utf8Next lead rest).2.length ≤ rest.length := by
  unfold utf8Next
  repeat' split
  all_goals simp only [List.length_cons]; omega

/-- Every scalar value in order, with `none` for each ill-formed subpart. -/
def utf8Chunks : Bytes → List (Option Char)
  | [] => []
  | lead :: rest => (utf8Next lead rest).1 :: utf8Chunks (utf8Next lead rest).2
termination_by octets => octets.length
decreasing_by
  have := utf8Next_length lead rest
  simp only [List.length_cons]
  omega

/-- `str::from_utf8`. -/
def fromUtf8 (octets : Bytes) : Option String :=
  ((utf8Chunks octets).mapM id).map String.ofList

/-- `String::from_utf8_lossy`. -/
def fromUtf8Lossy (octets : Bytes) : String :=
  String.ofList ((utf8Chunks octets).map fun chunk => chunk.getD (Char.ofNat 0xfffd))

/-- `str::as_bytes`. -/
def asBytes (text : String) : Bytes := text.toUTF8.data.toList.map UInt8.toBitVec

/-- `str::to_ascii_lowercase`. -/
def toAsciiLowercase (text : String) : String := text.map Char.toLower

end Netd.Model
