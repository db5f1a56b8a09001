import Netd.Machine.Transducer
import Netd.Model.Kernel
import Netd.Model.Policy

/-! # Configuration and its generations

How netd comes to hold a configuration and a policy: `main` reads the registry, builds the first
generation and arms a watch; each time the watch has events the registry is read again, compared with
what is held, and where the rules or the profiles differ a generation is built, checked against every
interface for a tie, and taken or refused (`reload` in `event_loop.rs`, `take_generation` in
`main.rs`). A read gives the whole of `config.rs`'s `Config` or fails.
-/

namespace Netd.Model

open Policy (Conditions PolicyError build)

/-- What the registry says the network should be. -/
structure Config where
  hostname : Option String := none
  controlSecurity : Option Bytes := none
  duid : Option Bytes := none
  rules : Option RawKey := none
  profiles : Option RawKey := none
deriving DecidableEq, Repr

/-! ## What interfaces are judged by -/

/-- Where a device sits and what drives it; empty for virtual devices. -/
structure Identity where
  path : String
  driver : String
deriving DecidableEq, Repr

/-- What the operator says of a network. -/
structure NetworkRecord where
  id : String
  name : Option String
  trust : Option String
deriving DecidableEq, Repr

/-- An interface as the interface layer sees it. -/
structure Subject where
  ifid : String
  identity : Identity
  link : Link
  network : Option NetworkRecord
deriving DecidableEq, Repr

/-- The facts of the interface layer; every other fact of a snapshot is absent. -/
structure Facts where
  interface : Option String
  interfaceKind : Option String
  interfaceId : Option String
  interfaceMac : Option Mac
  interfacePath : Option String
  interfaceDriver : Option String
  networkId : Option String
  networkName : Option String
  networkTrust : Option String
  networkKind : Option String
deriving DecidableEq, Repr

def LinkKind.asStr : LinkKind → String
  | loopback => "loopback"
  | ether => "wired"
  | wireless => "wireless"
  | other => "other"

def Subject.facts (i : Subject) : Facts where
  interface := some i.link.name
  interfaceKind := some i.link.kind.asStr
  interfaceId := some i.ifid
  interfaceMac := i.link.mac
  interfacePath := if i.identity.path.isEmpty then none else some i.identity.path
  interfaceDriver := if i.identity.driver.isEmpty then none else some i.identity.driver
  networkId := i.network.map NetworkRecord.id
  networkName := i.network.bind NetworkRecord.name
  networkTrust := i.network.bind NetworkRecord.trust
  networkKind := i.network.map fun _ => i.link.kind.asStr

/-! ## Generations -/

/-- Why the interface layer was refused. -/
inductive Refusal where
  | build (error : PolicyError)
  | tie (rules interface : String)
deriving DecidableEq, Repr

/-- The text of a refusal; `debug` puts a text between quotes. -/
def Refusal.text (debug : String → String) : Refusal → String
  | build error => error.text debug
  | tie rules interface => s!"rules {rules} tie on interface {interface}"

/-- The parts of `Netd` that the registry decides. -/
structure Daemon (Condition : Type) where
  config : Config
  policy : Policy Condition
  refusal : Option Refusal
  control : Option Bytes

/-- What was logged about a generation. -/
inductive Taking (Condition : Type) where
  | taken (policy : Policy Condition)
  | refused (why : Refusal)

/-- How a readable watch answers. -/
inductive WatchRead where
  | events
  | nothing
  | failed
deriving DecidableEq, Repr

/-- One reload: what the watch and the registry answer, and the interfaces there are. -/
structure Reload where
  watch : WatchRead
  read : Option Config
  interfaces : List Subject
deriving DecidableEq, Repr

section

variable {Condition : Type} (language : Conditions Condition Facts)

/-- The first interface that two rules tie on. -/
def Policy.tie (policy : Policy Condition) (interfaces : List Subject) : Option Refusal :=
  (interfaces.filter fun i => !i.link.loopback).findSome? fun i =>
    let j := policy.judge language i.facts
    if j.conflict then some (.tie j.rule i.link.name) else none

namespace Daemon

/-- The first generation, before any interface is known. -/
def start (config : Config) : Daemon Condition × Taking Condition :=
  match build language config.rules config.profiles with
  | .ok policy => (⟨config, policy, none, config.controlSecurity⟩, .taken policy)
  | .error e => (⟨config, {}, some (.build e), config.controlSecurity⟩, .refused (.build e))

/-- A new generation: built, checked for a tie, and then taken or refused with the last good one kept. -/
def takeGeneration (d : Daemon Condition) (fresh : Config) (interfaces : List Subject) :
    Daemon Condition × Taking Condition :=
  match build language fresh.rules fresh.profiles with
  | .ok policy =>
    match policy.tie language interfaces with
    | some why => ({ d with refusal := some why }, .refused why)
    | none => ({ d with policy, refusal := none }, .taken policy)
  | .error e => ({ d with refusal := some (.build e) }, .refused (.build e))

/-- A configuration that was read. -/
def adopt (d : Daemon Condition) (fresh : Config) (interfaces : List Subject) :
    Daemon Condition × Option (Taking Condition) :=
  if fresh = d.config then (d, none)
  else if fresh.rules ≠ d.config.rules ∨ fresh.profiles ≠ d.config.profiles then
    let (d, taking) := d.takeGeneration language fresh interfaces
    ({ d with config := fresh, control := fresh.controlSecurity }, some taking)
  else ({ d with config := fresh, control := fresh.controlSecurity }, none)

/-- What a readable watch leads to, with whether a full pass follows. A watch that failed is armed again,
and the registry is not read. -/
def reload (d : Daemon Condition) (r : Reload) : Daemon Condition × Option (Taking Condition) × Bool :=
  match r.watch, r.read with
  | .events, some fresh =>
    let (d, taking) := d.adopt language fresh r.interfaces
    (d, taking, true)
  | .events, none => (d, none, false)
  | .nothing, _ => (d, none, false)
  | .failed, _ => (d, none, false)

/-- One reload after another. -/
def machine : Transducer (Daemon Condition) Reload (Option (Taking Condition)) where
  step d r := ((d.reload language r).1, (d.reload language r).2.1)

end Daemon

/-! ## The registry and its watch -/

/-- Where netd stands between the calls it makes. -/
inductive Phase (Condition : Type) where
  /-- Before the first read. -/
  | starting
  /-- The first configuration was read, and no watch is armed. -/
  | loaded (config : Config)
  /-- In the poll, a watch armed. -/
  | waiting (d : Daemon Condition)
  /-- Events were read from the watch, and the registry not yet. -/
  | drained (d : Daemon Condition)
  /-- The watch failed, and is not armed again yet. -/
  | failed (d : Daemon Condition)

/-- netd beside a registry that others write. `pending` counts the notifications of the armed watch. -/
structure System (Condition : Type) where
  registry : Config
  pending : Option ℕ
  phase : Phase Condition

/-- One call of netd, or one write of another. -/
inductive Move where
  | write (value : Config)
  /-- `config::load` in `main`. -/
  | load
  /-- `policy::build` and `config::watch` in `main`. -/
  | arm
  /-- `read_watch_events` takes some of the notifications, all of them or not. -/
  | events (count : ℕ)
  /-- `read_watch_events` returns nothing. -/
  | nothing
  /-- `read_watch_events` fails. -/
  | fail
  /-- `read_configuration_update`, and what is made of it. -/
  | read (interfaces : List Subject)
  /-- `config::watch` after a failure. -/
  | rearm
deriving DecidableEq, Repr

namespace System

/-- Before netd starts. -/
def initial (registry : Config) : System Condition := ⟨registry, none, .starting⟩

/-- A watch that is armed notes every write; arming one again starts from nothing. -/
def step (s : System Condition) : Move → Option (System Condition)
  | .write value => some { s with registry := value, pending := s.pending.map (· + 1) }
  | .load =>
    match s.phase with
    | .starting => some { s with phase := .loaded s.registry }
    | _ => none
  | .arm =>
    match s.phase with
    | .loaded config => some { s with pending := some 0, phase := .waiting (Daemon.start language config).1 }
    | _ => none
  | .events count =>
    match s.phase, s.pending with
    | .waiting d, some n =>
      if 0 < count ∧ count ≤ n then some { s with pending := some (n - count), phase := .drained d } else none
    | _, _ => none
  | .nothing =>
    match s.phase with
    | .waiting d => some { s with phase := .waiting (d.reload language ⟨.nothing, none, []⟩).1 }
    | _ => none
  | .fail =>
    match s.phase with
    | .waiting d => some { s with phase := .failed (d.reload language ⟨.failed, none, []⟩).1 }
    | _ => none
  | .read interfaces =>
    match s.phase with
    | .drained d =>
      some { s with phase := .waiting (d.reload language ⟨.events, some s.registry, interfaces⟩).1 }
    | _ => none
  | .rearm =>
    match s.phase with
    | .failed d => some { s with pending := some 0, phase := .waiting d }
    | _ => none

/-- The system after some moves, if each could be made. -/
def run (s : System Condition) (moves : List Move) : Option (System Condition) :=
  moves.foldlM (step language) s

end System

end

end Netd.Model
