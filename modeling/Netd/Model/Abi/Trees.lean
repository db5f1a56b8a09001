import Netd.Machine.Metered
import Netd.Model.Abi
import Netd.Model.Profile

/-! # Configuration trees at the C boundary

`Input` of `netd-client/src/encode.rs`, which lays registry trees out for C, and `Budget` of
`libnetd/src/inputs.rs`, which reads them back, with the two calls that run them over a pair of trees:
`Policy::build` of `netd-client/src/lib.rs` and `peios_netd_policy_build` of `libnetd/src/lib.rs`. A depth
is counted down from the number of levels there may be, so that no tree of C can be too deep to read.
-/

namespace Netd.Model.Abi

/-- `usize::checked_add`. -/
def checkedAdd (first second : ℕ) : Option ℕ := if first + second < 2 ^ 64 then some (first + second) else none

/-- Count something against a limit: `checked_add`, `filter` and `ok_or_else`. -/
def charged (limit : ℕ) (message : String) (total count : ℕ) : Except Fault ℕ :=
  match (checkedAdd total count).filter fun total => total ≤ limit with
  | some total => .ok total
  | none => .error (invalid message)

/-- Whether a key may have so many children, each of which is an item itself. -/
def childRoom (limit total children : ℕ) : Except Fault Unit :=
  if limit < total then .error .overflow
  else if children > limit - total then .error (invalid "too many child keys")
  else .ok ()

/-! ## The client's side -/

namespace Input

def maxKeyDepth : ℕ := 128

def maxItems : ℕ := 65536

/-- What the client has counted is all that it keeps besides the views it hands out. -/
abbrev Walk (α : Type) := Metered ℕ Fault α

def count (count : ℕ) : Walk Unit := fun items =>
  (charged maxItems "configuration exceeds 65536 items" items count).map fun total => ((), total)

def room (children : ℕ) : Walk Unit := fun items => (childRoom maxItems items children).map fun _ => ((), items)

def value (entry : String × RawValue) : Walk Value := do
  let out : Value :=
    { name := span (asBytes entry.1)
      kind := 0
      integer := 0
      text := span []
      list := ⟨none, 0⟩ }
  match entry.2 with
  | .other => return out
  | .int integer => return { out with kind := 1, integer }
  | .str text => return { out with kind := 2, text := span (asBytes text) }
  | .list list =>
    count list.length
    let views := list.map fun text => span (asBytes text)
    return { out with kind := 3, list := ⟨some views, len views⟩ }

/-- A key, with so many levels left. -/
def key : ℕ → RawKey → Walk Key
  | 0, _ => throw (invalid "configuration exceeds 128 key levels")
  | levels + 1, k => do
    count 1
    count k.values.length
    room k.children.length
    let values ← k.values.mapM value
    let children ← k.children.mapM (key levels)
    return {
      name := span (asBytes k.name)
      values := some values
      valueCount := len values
      children := some children
      childCount := len children }

def tree : Option RawKey → Walk (Option Key)
  | none => return none
  | some root => do
    let view ← key maxKeyDepth root
    return some view

/-- The views of both trees. -/
def trees (rules profiles : Option RawKey) : Walk (Option Key × Option Key) := do
  let rules ← tree rules
  let profiles ← tree profiles
  return (rules, profiles)

end Input

/-! ## The library's side -/

def maxTextBytes : ℕ := 4 * 1024 * 1024

def maxTreeItems : ℕ := 65536

def maxKeyDepth : ℕ := 128

/-- An array of elements of the given size. -/
def array {α : Type} (size : ℕ) (pointer : Option (List α)) (count : U64) : Except Fault (List α) :=
  if count = 0 then .ok []
  else if pointer.isNone ∨ count.toNat > (2 ^ 63 - 1) / max size 1 then .error (invalid "invalid array span")
  else fromRawParts pointer count

def bytes (value : Bytes) : Except Fault (List U8) :=
  if value.len.toNat > maxTextBytes then .error (invalid "input span exceeds 4 MiB")
  else array 1 value.data value.len

def checkUtf8 (octets : List U8) : Except Fault String :=
  match fromUtf8 octets with
  | some text => .ok text
  | none => .error (invalid "text is not UTF-8")

def text (value : Bytes) : Except Fault String := do
  let octets ← bytes value
  checkUtf8 octets

/-- `items` and `text_bytes`. -/
abbrev Budget := ℕ × ℕ

namespace Budget

abbrev Walk (α : Type) := Metered Budget Fault α

def items (count : ℕ) : Walk Unit := fun budget =>
  (charged maxTreeItems "configuration exceeds 65536 keys, values and list items" budget.1 count).map
    fun total => ((), total, budget.2)

def room (children : ℕ) : Walk Unit := fun budget =>
  (childRoom maxTreeItems budget.1 children).map fun _ => ((), budget)

def countText (count : ℕ) : Walk Unit := fun budget =>
  (charged maxTextBytes "configuration text exceeds 4 MiB" budget.2 count).map fun total => ((), budget.1, total)

def text (value : Bytes) : Walk String := do
  countText value.len.toNat
  .lift (Abi.text value)

/-- What a value holds, by its kind. -/
def held (value : Value) : Walk RawValue :=
  match value.kind.toNat with
  | 0 => return .other
  | 1 => return .int value.integer
  | 2 => do
    let text ← text value.text
    return .str text
  | 3 => do
    items value.list.len.toNat
    let spans ← .lift (array 16 value.list.data value.list.len)
    let texts ← spans.mapM text
    return .list texts
  | _ => throw (invalid "unknown configuration value kind")

def value (value : Value) : Walk (String × RawValue) := do
  let name ← text value.name
  let held ← held value
  return (name, held)

/-- `Option::expect` on a key that was read through a reference. -/
def expectChild : Option RawKey → Except Fault RawKey
  | some child => .ok child
  | none => .error (.panicked "non-null child reference")

/-- A key, with so many levels left. -/
def key : ℕ → Option Key → Walk (Option RawKey)
  | _, none => return none
  | 0, some _ => throw (invalid "configuration exceeds 128 key levels")
  | levels + 1, some k => do
    items 1
    items k.valueCount.toNat
    room k.childCount.toNat
    let name ← text k.name
    let values ← .lift (array 64 k.values k.valueCount)
    let children ← .lift (array 48 k.children k.childCount)
    let values ← values.mapM value
    let children ← children.mapM fun child => do
      let found ← key levels (some child)
      .lift (expectChild found)
    return some { name, values, children }

/-- Both trees, from one budget. -/
def trees (rules profiles : Option Key) : Walk (Option RawKey × Option RawKey) := do
  let rules ← key maxKeyDepth rules
  let profiles ← key maxKeyDepth profiles
  return (rules, profiles)

end Budget

/-- What the client passes to the library, or why it does not. -/
def encodeTrees (rules profiles : Option RawKey) : Except Fault (Option Key × Option Key) :=
  (Input.trees rules profiles).run' 0

/-- What the library makes of what it is passed, before any rule is looked at. -/
def decodeTrees (rules profiles : Option Key) : Except Fault (Option RawKey × Option RawKey) :=
  (Budget.trees rules profiles).run' (0, 0)

end Netd.Model.Abi
