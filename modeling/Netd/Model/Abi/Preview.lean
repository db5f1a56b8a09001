import Netd.Model.Abi.Trees
import Netd.Model.Abi.Views
import Netd.Model.Policy
import Netd.Model.Reload

/-! # A policy previewed through the library

`Policy` of `netd-client/src/lib.rs` over `peios_netd_policy_build` and `peios_netd_policy_judge` of
`libnetd/src/lib.rs`: trees are laid out and built in the library, the result is a handle whose views are
copied back, and an interface is judged by facts that cross the boundary one by one.
-/

namespace Netd.Model.Abi

structure Facts where
  interface : Bytes
  interfaceKind : Bytes
  interfaceId : Bytes
  interfaceMac : Bytes
  interfacePath : Bytes
  interfaceDriver : Bytes
  networkId : Bytes
  networkName : Bytes
  networkTrust : Bytes
  networkKind : Bytes
deriving DecidableEq, Repr

structure Judgment where
  outcome : U32
  rule : Bytes
  backstop : U32
  conflict : U32
  profile : Option Profile
deriving DecidableEq, Repr

namespace Input

def optional : Option String → Bytes
  | none => ⟨none, 0⟩
  | some text => span (asBytes text)

/-- The client's facts are those that netd has of an interface. -/
def facts (value : Model.Facts) : Facts where
  interface := optional value.interface
  interfaceKind := optional value.interfaceKind
  interfaceId := optional value.interfaceId
  interfaceMac := value.interfaceMac.elim ⟨none, 0⟩ fun mac => span (toBeBytes 6 mac)
  interfacePath := optional value.interfacePath
  interfaceDriver := optional value.interfaceDriver
  networkId := optional value.networkId
  networkName := optional value.networkName
  networkTrust := optional value.networkTrust
  networkKind := optional value.networkKind

end Input

namespace Budget

/-- A fact that may be absent. -/
def optional (value : Bytes) : Walk (Option String) :=
  if value.data.isNone then
    if value.len ≠ 0 then throw (invalid "null fact has a nonzero length") else return none
  else do
    let text ← text value
    return some text

def mac (value : Bytes) : Except Fault (Option Mac) :=
  if value.data.isNone ∧ value.len = 0 then .ok none
  else do
    let octets ← bytes value
    if octets.length = 6 then return some (fromBeBytes octets) else throw (invalid "MAC must contain six bytes")

def facts (value : Facts) : Walk Model.Facts := do
  let interfaceMac ← .lift (mac value.interfaceMac)
  let interface ← optional value.interface
  let interfaceKind ← optional value.interfaceKind
  let interfaceId ← optional value.interfaceId
  let interfacePath ← optional value.interfacePath
  let interfaceDriver ← optional value.interfaceDriver
  let networkId ← optional value.networkId
  let networkName ← optional value.networkName
  let networkTrust ← optional value.networkTrust
  let networkKind ← optional value.networkKind
  return {
    interface, interfaceKind, interfaceId, interfaceMac, interfacePath, interfaceDriver, networkId, networkName,
    networkTrust, networkKind }

end Budget

/-- The facts in a library call, from a budget of their own. -/
def decodeFacts : Option Facts → Except Fault Model.Facts
  | none => .error (invalid "null interface facts")
  | some value => (Budget.facts value).run' (0, 0)

/-- A result that holds a policy, with what is laid out of it. -/
structure Handle (Condition : Type) where
  policy : Policy Condition
  profiles : List Profile
  lints : Strings

def Arena.outcome : Outcome → U32
  | .ignore => 0
  | .down => 1
  | .join _ => 2

def Arena.judgment (value : Policy.Judgment) : Judgment where
  outcome := outcome value.outcome
  rule := text value.rule
  backstop := flag value.backstop
  conflict := flag value.conflict
  profile := value.outcome.profile.map profile

def Decode.outcome (value : U32) (profile : Option Profile) : Except Fault Outcome :=
  match value.toNat with
  | 0 => .ok .ignore
  | 1 => .ok .down
  | 2 => (Decode.profile profile).map .join
  | _ => .error (invalid "unknown policy outcome")

def Decode.judgment : Option Judgment → Except Fault Policy.Judgment
  | none => .error (invalid "missing judgment view")
  | some value => do
    let outcome ← outcome value.outcome value.profile
    let rule ← text value.rule
    return { outcome, rule, backstop := value.backstop ≠ 0, conflict := value.conflict ≠ 0 }

section Preview

variable {Condition : Type} (language : Policy.Conditions Condition Model.Facts) (debug : String → String)

/-- `peios_netd_policy_build`. -/
def policyBuild (rules profiles : Option Key) : Except Fault (Handle Condition) := do
  let (rules, profiles) ← decodeTrees rules profiles
  match Policy.build language rules profiles with
  | .ok policy =>
    return {
      policy
      profiles := policy.profiles.entries.map fun entry => Arena.profile entry.2
      lints := Arena.strings policy.lints }
  | .error e => throw (invalid (e.text debug))

/-- `peios_netd_policy_judge`, on a handle that holds a policy. -/
def policyJudge (handle : Handle Condition) (facts : Option Facts) : Except Fault Judgment := do
  let snapshot ← decodeFacts facts
  return Arena.judgment (handle.policy.judge language snapshot)

/-! ## The client's side -/

namespace Preview

def build (rules profiles : Option RawKey) : Except Fault (Handle Condition) := do
  let (rules, profiles) ← encodeTrees rules profiles
  policyBuild language debug rules profiles

/-- Resolved profiles in the order of their folded paths; an index out of range would give a null pointer. -/
def profiles (handle : Handle Condition) : Except Fault (List Model.Profile) :=
  (List.range handle.profiles.length).mapM fun index => Decode.profile handle.profiles[index]?

def lints (handle : Handle Condition) : Except Fault (List String) := Decode.strings handle.lints

def judge (handle : Handle Condition) (facts : Model.Facts) : Except Fault Policy.Judgment := do
  let view ← policyJudge language handle (some (Input.facts facts))
  Decode.judgment (some view)

end Preview

end Preview

end Netd.Model.Abi
