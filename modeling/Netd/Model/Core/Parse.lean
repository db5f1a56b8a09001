import Mathlib.Algebra.Group.Nat.Defs
import Netd.Model.Core.Text

/-! # Numbers and addresses from text

The parts of the standard library that the profile vocabulary is read with: `str::trim`,
`split_once`, the unsigned `FromStr` and the parser of `IpAddr`. The address parser reads from the
front and hands on what it did not read; a reader that fails has read nothing.
-/

namespace Netd.Model

/-- `char::is_whitespace`, the Unicode property `White_Space`. -/
def isWhitespace (c : Char) : Bool :=
  let code := c.toNat
  (0x9 ≤ code && code ≤ 0xd) || code == 0x20 || code == 0x85 || code == 0xa0 || code == 0x1680 ||
    (0x2000 ≤ code && code ≤ 0x200a) || code == 0x2028 || code == 0x2029 || code == 0x202f ||
    code == 0x205f || code == 0x3000

/-- `char::is_ascii_whitespace`, which leaves out the vertical tab. -/
def isAsciiWhitespace (c : Char) : Bool :=
  c == ' ' || c == '\t' || c == '\n' || c == '\r' || c == Char.ofNat 0xc

/-- `str::trim`. -/
def trim (text : String) : String :=
  String.ofList ((text.toList.dropWhile isWhitespace).reverse.dropWhile isWhitespace).reverse

/-- `str::contains` of a character. -/
def containsChar (text : String) (c : Char) : Bool := text.toList.contains c

/-- `str::split_once` at a character. -/
def splitOnce (text : String) (separator : Char) : Option (String × String) :=
  match text.toList.span fun c => c != separator with
  | (_, []) => none
  | (first, _ :: second) => some (String.ofList first, String.ofList second)

/-- `char::to_digit`. -/
def toDigit (radix : ℕ) (c : Char) : Option ℕ :=
  let digit :=
    if '0' ≤ c && c ≤ '9' then c.toNat - '0'.toNat
    else if 'a' ≤ c && c ≤ 'z' then c.toNat - 'a'.toNat + 10
    else if 'A' ≤ c && c ≤ 'Z' then c.toNat - 'A'.toNat + 10
    else radix
  if digit < radix then some digit else none

/-- One more digit of a number below `bound`. -/
def pushDigit (radix bound value : ℕ) (c : Char) : Option ℕ := do
  let digit ← toDigit radix c
  let next := value * radix + digit
  if next < bound then some next else none

/-- `FromStr` of an unsigned integer: a plus sign may lead, a minus sign may not. -/
def parseUnsigned (w : ℕ) (text : String) : Option (BitVec w) :=
  let digits :=
    match text.toList with
    | '+' :: digits => digits
    | digits => digits
  if digits.isEmpty then none
  else (digits.foldlM (pushDigit 10 (2 ^ w)) 0).map (BitVec.ofNat w)

/-- `FromStr` of a signed integer. -/
def parseSigned (w : ℕ) (text : String) : Option ℤ :=
  let (negative, digits) :=
    match text.toList with
    | '-' :: digits => (true, digits)
    | '+' :: digits => (false, digits)
    | digits => (false, digits)
  if digits.isEmpty then none
  else if negative then (digits.foldlM (pushDigit 10 (2 ^ (w - 1) + 1)) 0).map fun value => -(value : ℤ)
  else (digits.foldlM (pushDigit 10 (2 ^ (w - 1))) 0).map fun value => (value : ℤ)

/-- `to_ascii_uppercase`. -/
def toAsciiUppercase (text : String) : String := text.map Char.toUpper

/-- `eq_ignore_ascii_case`. -/
def eqIgnoreAsciiCase (first second : String) : Bool := toAsciiLowercase first == toAsciiLowercase second

/-! ## Addresses -/

/-- Up to `maxDigits` digits of a number below `bound`. -/
def readNumber (radix maxDigits bound : ℕ) (allowZeroLead : Bool) (input : List Char) :
    Option (ℕ × List Char) :=
  let digits := input.takeWhile fun c => (toDigit radix c).isSome
  if digits.isEmpty || maxDigits < digits.length ||
      (!allowZeroLead && digits.head? == some '0' && 1 < digits.length) then none
  else (digits.foldlM (pushDigit radix bound) 0).map fun value => (value, input.drop digits.length)

/-- Every item but the first comes after a separator. -/
def readSeparator {α : Type} (separator : Char) (index : ℕ) (inner : List Char → Option (α × List Char))
    (input : List Char) : Option (α × List Char) :=
  if 0 < index then
    match input with
    | c :: rest => if c = separator then inner rest else none
    | [] => none
  else inner input

def readIpv4Addr (input : List Char) : Option (Ipv4Addr × List Char) :=
  (List.range 4).foldlM (fun (address, input) index => do
    let (octet, rest) ← readSeparator '.' index (readNumber 10 3 256 false) input
    some (address <<< 8 ||| BitVec.ofNat 32 octet, rest)) (0, input)

/-- Groups of an IPv6 address, as many as there are or `limit` allows; a trailing IPv4 address takes
two. Whether there was one is reported. -/
def readGroups (limit : ℕ) : ℕ → List U16 → List Char → List U16 × Bool × List Char
  | 0, groups, input => (groups, false, input)
  | remaining + 1, groups, input =>
    let index := groups.length
    match if index < limit - 1 then readSeparator ':' index readIpv4Addr input else none with
    | some (v4, rest) => (groups ++ [v4.extractLsb' 16 16, v4.extractLsb' 0 16], true, rest)
    | none =>
      match readSeparator ':' index (readNumber 16 4 65536 true) input with
      | some (group, rest) => readGroups limit remaining (groups ++ [BitVec.ofNat 16 group]) rest
      | none => (groups, false, input)

/-- The address that eight groups spell. -/
def ofGroups (groups : List U16) : Ipv6Addr :=
  groups.foldl (fun address group => address <<< 16 ||| group.setWidth 128) 0

/-- Either eight groups, or those before and after a `::` that stands for at least one. -/
def readIpv6Addr (input : List Char) : Option (Ipv6Addr × List Char) :=
  let (head, headIpv4, rest) := readGroups 8 8 [] input
  if head.length = 8 then some (ofGroups head, rest)
  else if headIpv4 then none
  else
    match rest with
    | ':' :: ':' :: rest =>
      let limit := 8 - (head.length + 1)
      let (tail, _, rest) := readGroups limit limit [] rest
      some (ofGroups (head ++ List.replicate (8 - head.length - tail.length) 0 ++ tail), rest)
    | _ => none

/-- `FromStr` of `Ipv4Addr`: all of the text, which is never longer than fifteen octets, is one address. -/
def parseIpv4Addr (text : String) : Option Ipv4Addr :=
  if 15 < text.utf8ByteSize then none
  else
    match readIpv4Addr text.toList with
    | some (address, []) => some address
    | _ => none

/-- `FromStr` of `Ipv6Addr`. -/
def parseIpv6Addr (text : String) : Option Ipv6Addr :=
  match readIpv6Addr text.toList with
  | some (address, []) => some address
  | _ => none

/-- `FromStr` of `IpAddr`: all of the text is one address. -/
def parseIpAddr (text : String) : Option IpAddr :=
  let read :=
    match readIpv4Addr text.toList with
    | some (address, rest) => some (IpAddr.v4 address, rest)
    | none => (readIpv6Addr text.toList).map fun (address, rest) => (IpAddr.v6 address, rest)
  match read with
  | some (address, []) => some address
  | _ => none

end Netd.Model
