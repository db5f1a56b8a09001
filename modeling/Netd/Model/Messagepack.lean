import Netd.Model.Core.Text
import Netd.Model.Wire

/-! # MessagePack

A codec to run the wire with: the published format, in its shortest forms. The format has none for a text
of four gigabytes, and a writer hands over nothing but one whole value.
-/

namespace Netd.Model.Wire

inductive Malformed where
  | ended
  | unexpected
  | notUtf8
deriving DecidableEq, Repr

namespace Messagepack

/-- A number in `width` octets, most significant first. -/
def bigEndian : ℕ → ℕ → Bytes
  | 0, _ => []
  | width + 1, n => BitVec.ofNat 8 (n / 256 ^ width) :: bigEndian width n

def ofBigEndian (octets : Bytes) : ℕ := octets.foldl (fun value octet => value * 256 + octet.toNat) 0

/-- The first `n` octets. -/
def take (n : ℕ) (octets : Bytes) : Except Malformed (Bytes × Bytes) :=
  if octets.length < n then .error .ended else .ok (octets.take n, octets.drop n)

/-- What the first octets of a value announce. -/
inductive Head where
  | map (count : ℕ)
  | array (count : ℕ)
  | str (length : ℕ)
  | uint (value : ℕ)
  | bool (value : Bool)
  | nil
deriving DecidableEq, Repr

namespace Head

/-- A number behind the lead of the narrowest of these widths that holds it. -/
def sized (n : ℕ) : List (ℕ × ℕ) → Bytes
  | [] => []
  | (lead, width) :: wider =>
    if n < 256 ^ width then BitVec.ofNat 8 lead :: bigEndian width n else sized n wider

def write : Head → Bytes
  | map n => if n < 16 then [BitVec.ofNat 8 (0x80 + n)] else sized n [(0xde, 2), (0xdf, 4)]
  | array n => if n < 16 then [BitVec.ofNat 8 (0x90 + n)] else sized n [(0xdc, 2), (0xdd, 4)]
  | str n => if n < 32 then [BitVec.ofNat 8 (0xa0 + n)] else sized n [(0xd9, 1), (0xda, 2), (0xdb, 4)]
  | uint n => if n < 128 then [BitVec.ofNat 8 n] else sized n [(0xcc, 1), (0xcd, 2), (0xce, 4), (0xcf, 8)]
  | bool false => [0xc2#8]
  | bool true => [0xc3#8]
  | nil => [0xc0#8]

/-- The heads behind which a number follows, with its width. -/
def wide : ℕ → Option ((ℕ → Head) × ℕ)
  | 0xcc => some (uint, 1)
  | 0xcd => some (uint, 2)
  | 0xce => some (uint, 4)
  | 0xcf => some (uint, 8)
  | 0xd9 => some (str, 1)
  | 0xda => some (str, 2)
  | 0xdb => some (str, 4)
  | 0xdc => some (array, 2)
  | 0xdd => some (array, 4)
  | 0xde => some (map, 2)
  | 0xdf => some (map, 4)
  | _ => none

def read : Bytes → Except Malformed (Head × Bytes)
  | [] => .error .ended
  | lead :: rest =>
    let n := lead.toNat
    if n < 0x80 then .ok (uint n, rest)
    else if n < 0x90 then .ok (map (n - 0x80), rest)
    else if n < 0xa0 then .ok (array (n - 0x90), rest)
    else if n < 0xc0 then .ok (str (n - 0xa0), rest)
    else if n = 0xc0 then .ok (nil, rest)
    else if n = 0xc2 then .ok (bool false, rest)
    else if n = 0xc3 then .ok (bool true, rest)
    else
      match wide n with
      | none => .error .unexpected
      | some (head, width) => do
        let (octets, rest) ← take width rest
        return (head (ofBigEndian octets), rest)

end Head

def write : Token → Bytes
  | .map n => (Head.map n.toNat).write
  | .array n => (Head.array n.toNat).write
  | .str text => (Head.str (asBytes text).length).write ++ asBytes text
  | .uint value => (Head.uint value.toNat).write
  | .bool value => (Head.bool value).write
  | .nil => Head.nil.write

/-- How many values belong to one. -/
def children : Token → ℕ
  | .map n => 2 * n.toNat
  | .array n => n.toNat
  | .str _ | .uint _ | .bool _ | .nil => 0

/-- The tokens that the format has a form for; a text of four gigabytes has none. -/
def plain : Token → Bool
  | .str text => decide (text.utf8ByteSize < 2 ^ 32)
  | .map _ | .array _ | .uint _ | .bool _ | .nil => true

/-- So many values and nothing behind them. -/
def complete : ℕ → List Token → Bool
  | 0, tokens => tokens.isEmpty
  | _ + 1, [] => false
  | pending + 1, token :: rest => plain token && complete (children token + pending) rest

def readMap (octets : Bytes) : Except Malformed (ℕ × Bytes) :=
  match Head.read octets with
  | .ok (.map n, rest) => .ok (n, rest)
  | .ok _ => .error .unexpected
  | .error e => .error e

def readArray (octets : Bytes) : Except Malformed (ℕ × Bytes) :=
  match Head.read octets with
  | .ok (.array n, rest) => .ok (n, rest)
  | .ok _ => .error .unexpected
  | .error e => .error e

def readStr (octets : Bytes) : Except Malformed (String × Bytes) := do
  match ← Head.read octets with
  | (.str n, rest) =>
    let (octets, rest) ← take n rest
    match fromUtf8 octets with
    | some text => return (text, rest)
    | none => throw .notUtf8
  | _ => throw .unexpected

def readUint (octets : Bytes) : Except Malformed (U64 × Bytes) :=
  match Head.read octets with
  | .ok (.uint n, rest) => .ok (BitVec.ofNat 64 n, rest)
  | .ok _ => .error .unexpected
  | .error e => .error e

def readBool (octets : Bytes) : Except Malformed (Bool × Bytes) :=
  match Head.read octets with
  | .ok (.bool value, rest) => .ok (value, rest)
  | .ok _ => .error .unexpected
  | .error e => .error e

def readNil (octets : Bytes) : Except Malformed (Unit × Bytes) :=
  match Head.read octets with
  | .ok (.nil, rest) => .ok ((), rest)
  | .ok _ => .error .unexpected
  | .error e => .error e

/-- Skip a number of values. Every value has an octet, so there are never more of them than that. -/
def skipFrom : ℕ → ℕ → Bytes → Except Malformed (Unit × Bytes)
  | _, 0, octets => .ok ((), octets)
  | 0, _ + 1, _ => .error .ended
  | fuel + 1, pending + 1, octets => do
    let (head, rest) ← Head.read octets
    match head with
    | .map n => skipFrom fuel (2 * n + pending) rest
    | .array n => skipFrom fuel (n + pending) rest
    | .str n => do
      let (_, rest) ← take n rest
      skipFrom fuel pending rest
    | .uint _ | .bool _ | .nil => skipFrom fuel pending rest

end Messagepack

/-- MessagePack, as a parameter of the wire. -/
def messagepack : Msgpack Malformed where
  write := Messagepack.write
  toBytes tokens := if Messagepack.complete 1 tokens then some (tokens.flatMap Messagepack.write) else none
  readMap := Messagepack.readMap
  readArray := Messagepack.readArray
  readStr := Messagepack.readStr
  readUint := Messagepack.readUint
  readBool := Messagepack.readBool
  readNil := Messagepack.readNil
  skip octets := Messagepack.skipFrom octets.length 1 octets
  peekNil octets := octets.head? = some 0xc0#8

/-- Texts to go with it. -/
def plainTexts : Texts Malformed where
  encoding
    | .ended => "unexpected end"
    | .unexpected => "unexpected value"
    | .notUtf8 => "invalid utf-8"
  io _ := "i/o error"
  quoted text := "\"" ++ text ++ "\""

end Netd.Model.Wire
