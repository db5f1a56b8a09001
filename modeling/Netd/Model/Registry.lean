import Mathlib.Data.String.Basic
import Netd.Math.Sorting
import Netd.Model.Reload

/-! # Reading the registry

`netd/src/config.rs`: from keys that are enumerated in whatever order to a `Config`. The trait `Reader` is
a structure of its four operations. The depth of a key is counted down, from `MAX_DEPTH` levels that may
still follow to none.
-/

namespace Netd.Model.Registry

inductive ErrorKind where
  | notFound
  | invalidData
  | os (code : ℕ)
deriving DecidableEq, Repr

structure IoError where
  kind : ErrorKind
  message : String
deriving DecidableEq, Repr

def invalid (message : String) : IoError := ⟨.invalidData, message⟩

/-- The types that are told apart. -/
inductive ValueType where
  | binary
  | dword
  | qword
  | sz
  | expandSz
  | multiSz
  | other
deriving DecidableEq, Repr

structure RegValue where
  ty : ValueType
  data : Bytes
deriving DecidableEq, Repr

structure ValueRecord where
  name : Bytes
  ty : ValueType
  data : Bytes
deriving DecidableEq, Repr

structure Reader (κ : Type) where
  value : κ → String → Except IoError (Option RegValue)
  values : κ → Except IoError (List ValueRecord)
  names : κ → Except IoError (List Bytes)
  child : κ → String → Except IoError (Option κ)

def maxDepth : ℕ := 16

/-! ## Values -/

def text (bytes : Bytes) : Except IoError String :=
  match fromUtf8 bytes with
  | some text => .ok text
  | none => .error (invalid "configuration text is not UTF-8")

/-- What stands before the first zero octet. -/
def untilNul (data : Bytes) : Bytes := data.takeWhile fun octet => octet != 0

def sz (value : RegValue) : Except IoError String :=
  if value.ty ≠ .sz ∧ value.ty ≠ .expandSz then .error (invalid "configuration string has a non-string type")
  else text (untilNul value.data)

def lowerValue (ty : ValueType) (data : Bytes) : Except IoError RawValue :=
  match ty with
  | .dword => .ok (if data.length = 4 then .int ((fromBeBytes data.reverse : U32).setWidth 64) else .other)
  | .qword => .ok (if data.length = 8 then .int (fromBeBytes data.reverse) else .other)
  | .sz | .expandSz => (text (untilNul data)).map .str
  | .multiSz => (((data.splitOn 0).filter fun part => !part.isEmpty).mapM text).map .list
  | .binary | .other => .ok .other

/-- A value with its name, unless it has none. -/
def lowerRecord (record : ValueRecord) : Except IoError (Option (String × RawValue)) := do
  let name ← text record.name
  if name.isEmpty then return none else return some (name, ← lowerValue record.ty record.data)

section Reading

variable {κ : Type} (reader : Reader κ)

def readSz (key : κ) (name : String) : Except IoError (Option String) := do
  let value ← reader.value key name
  let value ← value.mapM sz
  return value.filter fun value => !value.isEmpty

/-! ## Trees -/

def readValues (key : κ) : Except IoError (List (String × RawValue)) := do
  let records ← reader.values key
  let values ← records.mapM lowerRecord
  return Sorting.sortOn Prod.fst values.reduceOption

def readNames (key : κ) : Except IoError (List String) := do
  let names ← reader.names key
  let names ← names.mapM text
  return Sorting.sortOn id names

/-- A key that was enumerated, opened. -/
def openChild (key : κ) (name : String) : Except IoError κ := do
  match ← reader.child key name with
  | some child => return child
  | none => throw ⟨.notFound, "enumerated configuration key disappeared"⟩

/-- A tree of which so many levels may follow. -/
def readLevels : ℕ → κ → String → Except IoError RawKey
  | 0, key, name => do
    let values ← readValues reader key
    let names ← readNames reader key
    if names ≠ [] then throw (invalid "configuration tree exceeds the read depth limit")
    return ⟨name, values, []⟩
  | levels + 1, key, name => do
    let values ← readValues reader key
    let names ← readNames reader key
    let children ← names.mapM fun name => do
      let child ← openChild reader key name
      readLevels levels child name
    return ⟨name, values, children⟩

def readTree (key : κ) (name : String) (depth : ℕ) : Except IoError RawKey :=
  readLevels reader (maxDepth - depth) key name

/-! ## The whole configuration -/

/-- Octets of two digits each, most significant first. -/
def hexPairs : List ℕ → Bytes
  | high :: low :: rest => BitVec.ofNat 8 (16 * high + low) :: hexPairs rest
  | _ => []

def parseHex (s : String) : Option Bytes :=
  let digits := s.toList.filterMap (toDigit 16)
  if digits = [] ∨ digits.length % 2 ≠ 0 then none
  else if s.toList.any fun c => !((toDigit 16 c).isSome || c == ':' || c == '-' || isAsciiWhitespace c) then none
  else some (hexPairs digits)

/-- `root.child("Rules")?` and the layer below it. -/
def readRules (root : κ) : Except IoError (Option RawKey) := do
  match ← reader.child root "Rules" with
  | none => return none
  | some rules =>
    let layer ← reader.child rules "Interface"
    layer.mapM fun layer => readTree reader layer "Interface" 0

def readControlSecurity (root : κ) : Except IoError (Option Bytes) := do
  match ← reader.value root "ControlSecurity" with
  | none => return none
  | some value =>
    if value.ty ≠ .binary then throw (invalid "ControlSecurity must be binary")
    else if value.data = [] then return none
    else return some value.data

def readDuid (root : κ) : Except IoError (Option Bytes) := do
  let duid ← readSz reader root "Duid"
  duid.mapM fun value =>
    match parseHex value with
    | some octets => .ok octets
    | none => .error (invalid "Duid is not a hex identifier")

/-- A root that is missing is no configuration. -/
def loadRoot : Option κ → Except IoError Config
  | none => .ok {}
  | some root => do
    let hostname ← readSz reader root "Hostname"
    let controlSecurity ← readControlSecurity reader root
    let duid ← readDuid reader root
    let rules ← readRules reader root
    let profiles ← reader.child root "Profiles"
    let profiles ← profiles.mapM fun profiles => readTree reader profiles "Profiles" 0
    return { hostname, controlSecurity, duid, rules, profiles }

end Reading

end Netd.Model.Registry
