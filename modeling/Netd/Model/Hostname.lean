import Netd.Machine.Transducer
import Netd.Model.Core.Parse
import Netd.Model.Interface

/-! # The machine's name

`netd-core/src/hostname.rs`, the rule and the pattern that is published for it, and what
`netd/src/main.rs` does with a name: it takes the registry's or one that came with a lease, sets it when it
passes and remembers one it refused, and announces the registry's over DHCP.
-/

namespace Netd.Model.Hostname

/-- The longest a label can be. -/
def max : ℕ := 63

/-- The same rule as `check`, for what is typed. -/
def pattern : String := "[A-Za-z0-9]([A-Za-z0-9-]*[A-Za-z0-9])?"

/-- What a name may not contain. -/
def foreign (c : Char) : Bool := !c.isAlphanum && c != '-'

def foreignReason (c : Char) : String :=
  if c = ' ' then "A machine's name has no spaces; a hyphen can stand in for one."
  else if c = '.' then "One name, without dots: the network the machine is on gives the rest."
  else s!"A machine's name is letters, digits and hyphens; “{c}” is not one of them."

/-- The name, trimmed, or what is wrong with it. -/
def check (answered : String) : Except String String :=
  let name := trim answered
  if name.isEmpty then .error "Give the machine a name."
  else
    match name.toList.find? foreign with
    | some c => .error (foreignReason c)
    | none =>
      if max < name.utf8ByteSize then .error s!"A machine's name is at most {max} characters."
      else if name.toList.head? = some '-' ∨ name.toList.getLast? = some '-' then
        .error "A machine's name cannot begin or end with a hyphen."
      -- Every machine is localhost to itself.
      else if eqIgnoreAsciiCase name "localhost" then
        .error "Every machine calls itself localhost. Choose a name of its own."
      else .ok name

/-! ## Applying it -/

/-- The name last set and the name last refused, so that a refusal is logged once. -/
structure Naming where
  set : Option String := none
  refused : Option String := none

/-- The name that came with a lease, of the first interface that has one and takes it. -/
def fromLease (interfaces : List Interface) : Option String :=
  interfaces.findSome? fun i =>
    if (i.profile.map fun p => p.address.acceptHostname).getD false then i.lease.bind fun l => l.hostname else none

/-- What a pass meets: the registry's name, the interfaces, and whether the kernel takes a name. -/
structure Application where
  config : Option String
  interfaces : List Interface
  taken : Bool

/-- The name a pass asks for; the registry's goes first. -/
def Application.wanted (a : Application) : Option String := a.config.or (fromLease a.interfaces)

/-- Set the name where it is another than the last; with what `sethostname` was called with. -/
def Naming.give (n : Naming) (name : String) (taken : Bool) : Naming × Option String :=
  let n := { n with refused := none }
  if n.set = some name then (n, none)
  else if taken then ({ n with set := some name }, some name)
  else (n, some name)

def applyHostname (n : Naming) (a : Application) : Naming × Option String :=
  match a.wanted with
  | none => ({ n with refused := none }, none)
  | some wanted =>
    match check wanted with
    | .ok name => n.give name a.taken
    | .error _ => ({ n with refused := some wanted }, none)

/-- One pass after another. -/
def machine : Transducer Naming Application (Option String) where
  step := applyHostname

/-- The name that is announced in option 12, which is the registry's alone. -/
def announced (config : Option String) : Option String := config.bind fun name => (check name).toOption

end Netd.Model.Hostname
