import Netd.Model.EventLoop
import Netd.Model.Hostname
import Netd.Model.Inventory

/-! # The whole pass

`identify_networks`, `sync_links` and `converge` of `netd/src/main.rs` over every interface, and the loop of
`event_loop.rs` around them. What an interface is judged by includes the network on its other side, which its own
clients find out, and the clients it runs are those of the profile it was judged to join. The registry, sysfs and the
kernel answer what they like; links are kept under their index.
-/

namespace Netd.Model

deriving instance DecidableEq for Observed

namespace Convergence

open Policy (Conditions Judgment)

/-- What is written on the record of a network. -/
structure Words where
  name : Option String
  trust : Option String
  requestedAddress : Option Ipv4Addr
deriving DecidableEq, Repr

def Words.record (words : Words) (id : String) : Inventory.Record :=
  ⟨⟨id, words.name, words.trust⟩, words.requestedAddress⟩

/-- An interface of the table, with what it was judged and the network on its other side. -/
structure Station where
  interface : Interface
  identity : Identity
  rule : String
  backstop : Bool
  conflict : Bool
  network : Option Inventory.Record

/-- A name-based UUID (version 5) of a digest, as text. -/
def uuid (digest : BitVec 160) : String :=
  let b := (toBeBytes 20 digest).take 16
  let b := b.modify 6 fun octet => (octet &&& 0x0f) ||| 0x50
  let b := b.modify 8 fun octet => (octet &&& 0x3f) ||| 0x80
  let group (start stop : ℕ) := String.join (((b.drop start).take (stop - start)).map Networks.hexOctet)
  "-".intercalate [group 0 4, group 4 6, group 6 8, group 8 10, group 10 16]

/-- Identity survives a rename: it is of the hardware where there is any. -/
def interfaceId (sha1 : Bytes → BitVec 160) (identity : Identity) (mac : Option Mac) (name : String) : String :=
  uuid (sha1 (asBytes "peios-netd-ifid|" ++ asBytes identity.path ++ asBytes "|" ++
    match mac with
    | some mac => toBeBytes 6 mac
    | none => asBytes name))

namespace Station

def judgment (st : Station) : Judgment := ⟨st.interface.outcome, st.rule, st.backstop, st.conflict⟩

/-- What the interface layer sees. -/
def subject (st : Station) : Subject where
  ifid := st.interface.ifid
  identity := st.identity
  link := st.interface.link
  network := st.network.map Inventory.Record.toNetworkRecord

/-- An interface as it is first seen. -/
def new (sha1 : Bytes → BitVec 160) (identity : Identity) (link : Link) : Station :=
  let judgment : Judgment := {}
  { interface := Interface.new (interfaceId sha1 identity link.mac link.name) link
    identity
    rule := judgment.rule
    backstop := judgment.backstop
    conflict := judgment.conflict
    network := none }

/-! ## Networks -/

/-- The network on the other side, where the interface has shown enough of it. -/
def identified (sha1 : Bytes → BitVec 160) (st : Station) (now : ℕ) : Option String :=
  if st.interface.managed && st.interface.link.up && st.interface.link.carrier then
    (st.interface.signals now).identity sha1
  else none

/-- A newly identified network is a new fact, so the interface is judged again. -/
def identify (sha1 : Bytes → BitVec 160) (st : Station) (now : ℕ) (words : String → Words) : Station :=
  match st.identified sha1 now with
  | none => st
  | some id =>
    let known := st.network.any fun network => network.id == id
    { st with
      interface := if known then st.interface else { st.interface with rejudge := true }
      network := some ((words id).record id) }

/-! ## Links -/

/-- The network is on the other side of the carrier. -/
def adoptLink (st : Station) (link : Link) : Station :=
  let lost := (st.interface.link.carrier && st.interface.link.up) && !(link.carrier && link.up)
  { st with
    interface := st.interface.adoptLink link
    network := if lost then none else st.network }

def adoptJudgment (st : Station) (judgment : Judgment) : Station :=
  { st with
    interface := st.interface.adoptOutcome judgment.outcome
    rule := judgment.rule
    backstop := judgment.backstop
    conflict := judgment.conflict }

/-- The kernel's link, and what the interface layer makes of it. Loopback is never judged. -/
def syncLink {Condition : Type} (language : Conditions Condition Facts) (policy : Policy Condition) (st : Station)
    (link : Link) : Station :=
  let st := st.adoptLink link
  if link.loopback then st else st.adoptJudgment (policy.judge language st.subject.facts)

/-! ## Clients -/

/-- The address this network gave last time, or else the network last seen here. -/
def startDhcpWhereDue (st : Station) (env : Interface.Environment) : Station :=
  let previous := (st.network.bind Inventory.Record.requestedAddress).or env.previous
  { st with interface := st.interface.startDhcpWhereDue { env with previous } }

def startIpv6WhereDue (st : Station) (env : Interface.Environment) : Station :=
  { st with interface := st.interface.startIpv6WhereDue env }

end Station

/-! ## The daemon -/

/-- The configuration and its generation, the kernel as it was last seen, and the table. -/
structure State (Condition : Type) where
  daemon : Daemon Condition
  observed : Observed
  stations : SortedMap U32 Station

/-- What a pass meets outside: sysfs, the records of networks, and what a start takes. -/
structure Outside where
  identity : String → Identity
  words : U32 → String → Words
  env : U32 → Interface.Environment

/-- A pass, and the kernel's state after its reconcile, where it could be read. -/
structure Round where
  outside : Outside
  dump : Option Observed

/-- What the control socket asks for; other requests change nothing here. -/
inductive Request where
  | reconcile (now : ℕ) (rounds : ℕ → Round)
  | renew (interface : String) (now : ℕ)

/-- A turn of the loop: the kernel's state where a link event let it be read, what the watch and the registry
answered where the watch was readable, what sockets and timers brought, what clients asked for, and what the passes at
its end meet. -/
structure Turn where
  now : ℕ
  dump : Option Observed
  watch : Option (WatchRead × Option Config)
  handled : List (U32 × Interface.Event)
  requests : List Request
  rounds : ℕ → Round
  refreshed : Option Observed

/-- Whether a change that a handler reports calls for a full pass rather than a reconcile. -/
def callsForPass : Interface.Event → Bool
  | .advert .. | .tickNdp .. => true
  | .message .. | .datagram .. | .tickDhcp .. | .tickDhcp6 .. | .renew .. => false

namespace State

variable {Condition : Type}

section Passes

variable (sha1 : Bytes → BitVec 160) (language : Conditions Condition Facts)

def identifyNetworks (s : State Condition) (now : ℕ) (o : Outside) : State Condition :=
  { s with stations := s.stations.mapVal fun index st => st.identify sha1 now (o.words index) }

/-- An interface whose link is gone is dropped; every link has one afterwards. -/
def syncLinks (s : State Condition) (o : Outside) : State Condition :=
  let kept := s.stations.filter fun index _ => (s.observed.links.lookup index).isSome
  { s with
    stations := s.observed.links.entries.foldl (fun stations entry =>
      let st := (stations.lookup entry.1).getD (.new sha1 (o.identity entry.2.name) entry.2)
      stations.insert entry.1 (st.syncLink language s.daemon.policy entry.2)) kept }

/-- What a start meets at an index. -/
def environment (s : State Condition) (now : ℕ) (o : Outside) (index : U32) : Interface.Environment :=
  { o.env index with
    now
    observed := s.observed
    hostname := Hostname.announced s.daemon.config.hostname }

def startDhcpWhereDue (s : State Condition) (now : ℕ) (o : Outside) : State Condition :=
  { s with stations := s.stations.mapVal fun index st => st.startDhcpWhereDue (s.environment now o index) }

def startIpv6WhereDue (s : State Condition) (now : ℕ) (o : Outside) : State Condition :=
  { s with stations := s.stations.mapVal fun index st => st.startIpv6WhereDue (s.environment now o index) }

/-- One pass, up to its reconcile. -/
def pass (s : State Condition) (now : ℕ) (o : Outside) : State Condition :=
  (((s.identifyNetworks sha1 now o).syncLinks sha1 language o).startDhcpWhereDue now o).startIpv6WhereDue now o

/-- What is read back after a reconcile; a dump that failed leaves what was known. -/
def reconcile (s : State Condition) (dump : Option Observed) : State Condition :=
  { s with observed := dump.getD s.observed }

/-- Passes until one leaves the kernel unchanged, because applying changes what the next decisions see. -/
def convergeWithin (now : ℕ) (rounds : ℕ → Round) : ℕ → State Condition → State Condition
  | 0, s => s
  | left + 1, s =>
    let after := (s.pass sha1 language now (rounds left).outside).reconcile (rounds left).dump
    if after.observed = s.observed then after else convergeWithin now rounds left after

def converge (s : State Condition) (now : ℕ) (rounds : ℕ → Round) : State Condition :=
  s.convergeWithin sha1 language now rounds 4

/-! ## The loop -/

/-- An event at an index, and whether it calls for a full pass or for a reconcile. -/
def handle (s : State Condition) (index : U32) (event : Interface.Event) : State Condition × Bool × Bool :=
  let changed := ((s.stations.lookup index).map fun st => (st.interface.handle sha1 event).2).getD false
  ({ s with
    stations := s.stations.modify index fun st => { st with interface := (st.interface.handle sha1 event).1 } },
    changed && callsForPass event, changed && !callsForPass event)

def handleAll (s : State Condition) (events : List (U32 × Interface.Event)) : State Condition × Bool × Bool :=
  events.foldl (fun (s, full, reconcile) event =>
    let (s, calls, asks) := s.handle sha1 event.1 event.2
    (s, full || calls, reconcile || asks)) (s, false, false)

/-- The first interface of the name is renewed; what `perform` returns is not asked. -/
def renew (s : State Condition) (interface : String) (now : ℕ) : State Condition :=
  match s.stations.entries.find? fun entry =>
      entry.2.interface.link.name == interface || entry.2.interface.ifid == interface with
  | some (index, _) => (s.handle sha1 index (.renew now)).1
  | none => s

def serve (s : State Condition) : Request → State Condition
  | .reconcile now rounds => s.converge sha1 language now rounds
  | .renew interface now => s.renew sha1 interface now

/-- What a readable watch leads to, with whether a full pass follows. -/
def reload (s : State Condition) (watch : Option (WatchRead × Option Config)) : State Condition × Bool :=
  match watch with
  | none => (s, false)
  | some (watch, read) =>
    let (daemon, _, full) :=
      s.daemon.reload language ⟨watch, read, s.stations.entries.map fun entry => entry.2.subject⟩
    ({ s with daemon }, full)

def rejudges (s : State Condition) : Bool := s.stations.entries.any fun entry => entry.2.interface.rejudge

def turn (s : State Condition) (t : Turn) : State Condition :=
  let s := s.reconcile t.dump
  let (s, reloaded) := s.reload language t.watch
  let (s, full, reconcile) := s.handleAll sha1 t.handled
  let s := t.requests.foldl (serve sha1 language) s
  if t.dump.isSome || reloaded || full || s.rejudges then s.converge sha1 language t.now t.rounds
  else if reconcile then s.reconcile t.refreshed
  else s

/-- `main` up to the loop. -/
def start (config : Config) (observed : Observed) (now : ℕ) (rounds : ℕ → Round) : State Condition :=
  State.converge sha1 language ⟨(Daemon.start language config).1, observed, .empty⟩ now rounds

/-- The loop as a machine that takes turns. -/
def machine : Transducer (State Condition) Turn Unit where
  step s t := (s.turn sha1 language t, ())

end Passes

end State

end Convergence

end Netd.Model
