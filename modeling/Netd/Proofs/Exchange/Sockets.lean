import Mathlib.Data.List.Infix
import Mathlib.Logic.Function.Basic
import Netd.Machine.Transducer
import Netd.Model.Exchange
import Netd.Proofs.Channel.Exact
import Netd.Proofs.Control.Chunks
import Netd.Proofs.Control.Slots

/-! # Programs and the daemon, with the sockets between them

Any number of programs ask at once, each on a connection of its own, and the loop serves the connections
in whatever order it finds them ready. The kernel keeps what one end wrote until the other has read it. It
hands over and takes as much as it likes, and may refuse any call; but a read finds the end of the stream
only where the other end is closed, and a write to a closed end fails. What a request does to the daemon is
left open here, and so is what the daemon does besides.
-/

namespace Netd.Model.Exchange

open Wire Channel

/-- The kernel's answer to one read or write: refused, or so many octets. -/
inductive Answer where
  | refuse (error : IoError)
  | pass (amount : ℕ)

section Handler

variable {D W : Type}

/-- What a handler makes of the daemon for a request, and what it replies. -/
abbrev Handler (D W : Type) := W → D → Wire.Request → D × Option Reply

/-- A request that was carried out: what it met, and the daemon before and after. -/
structure Carried (D W : Type) where
  met : W
  request : Wire.Request
  before : D
  after : D

def isError : Reply → Bool
  | .error _ => true
  | .ok | .status _ | .snapshot _ => false

/-- What was carried out for a request; nothing, where the reply is an error. -/
def Handler.carried (handle : Handler D W) (met : W) (before : D) (request : Wire.Request) : Option (Carried D W) :=
  let (after, reply) := handle met before request
  if reply.any isError then none else some ⟨met, request, before, after⟩

/-- A connection: the program at its far end, what was written at either end and not read at the other,
and what the daemon carried out for it. -/
structure Link (D W : Type) where
  caller : Caller
  up : Bytes
  down : Bytes
  carried : List (Carried D W)

namespace Link

/-- The program has not hung up. -/
def callerOpen (l : Link D W) : Bool :=
  match l.caller.stage with
  | .returned _ | .stopped => false
  | .sending _ | .receiving _ => true

/-- The kernel, as the daemon's end meets it. -/
def kernel (l : Link D W) (answer : Answer) : Control.Syscall where
  read capacity :=
    match answer with
    | .refuse e => .error e.kind
    | .pass amount =>
      if l.up.isEmpty && l.callerOpen then .error .wouldBlock
      else .ok (l.up.take (min (amount + 1) capacity))
  write octets :=
    match answer with
    | .refuse e => .error e.kind
    | .pass amount => if l.callerOpen then .ok (min amount octets.length) else .error .other
  read_le := by
    intro capacity octets answered
    cases answer with
    | refuse e => contradiction
    | pass amount =>
      dsimp only at answered
      split_ifs at answered
      obtain rfl := Except.ok.inj answered
      rw [List.length_take]
      omega
  write_le := by
    intro octets taken answered
    cases answer with
    | refuse e => contradiction
    | pass amount =>
      dsimp only at answered
      split_ifs at answered
      obtain rfl := Except.ok.inj answered
      exact Nat.min_le_right _ _

/-- How the kernel answers the program's write. -/
def write (pending : Bytes) (daemonOpen : Bool) : Answer → Except IoError ℕ
  | .refuse e => .error e
  | .pass amount =>
    if daemonOpen then .ok (min amount pending.length) else .error ⟨.other, "Broken pipe (os error 32)"⟩

/-- How the kernel answers the program's read. -/
def read (l : Link D W) (daemonOpen : Bool) : Answer → Except IoError ℕ
  | .refuse e => .error e
  | .pass amount =>
    if l.down.isEmpty && daemonOpen then .error ⟨.wouldBlock, "Resource temporarily unavailable (os error 11)"⟩
    else .ok amount

end Link

section Sockets

variable {ε : Type} (codec : Msgpack ε) (texts : Texts ε) (handle : Handler D W)

/-- One round of the program's loop. A program that has returned does nothing more. -/
def Link.round (l : Link D W) (daemonOpen : Bool) (now : ℕ) (answer : Answer) (waited : Except IoError Unit) :
    Link D W :=
  match l.caller.stage with
  | .returned _ | .stopped => l
  | .sending pending =>
    let (taken, stage) := sendRound pending l.caller.until_ ⟨now, Link.write pending daemonOpen answer, waited⟩
    { l with caller := { l.caller with stage }, up := l.up ++ taken }
  | .receiving incoming =>
    let (down, stage) := receiveRound codec texts l.caller.command l.caller.until_ l.down incoming
      ⟨now, l.read daemonOpen answer, waited⟩
    { l with caller := { l.caller with stage }, down }

/-- A descriptor found ready: how the kernel answers, what a request in it meets, and the instants of the
service and of the reply. -/
structure Ready (W : Type) where
  fd : ℕ
  now : ℕ
  answer : Answer
  met : W
  later : ℕ

/-- What the daemon does when a descriptor is ready. -/
def Ready.slot (r : Ready W) (daemon : D) (l : Link D W) : Control.Server.Slot where
  fd := r.fd
  now := r.now
  kernel := l.kernel r.answer
  handle _ request := (handle r.met daemon request).2
  later := r.later

/-- The request that a service finds complete. -/
def Ready.request (r : Ready W) (l : Link D W) (server : Control.Server) : Option Wire.Request :=
  (server.clients.service codec texts r.fd r.now (l.kernel r.answer)).2.map Prod.snd

/-- The connection after its descriptor was served: what was read is gone, what was written is on its way,
and a request that was complete may have been carried out. -/
def Link.served (l : Link D W) (server : Control.Server) (daemon : D) (client : Control.Client) (r : Ready W) :
    Link D W where
  caller := l.caller
  up := if client.deadline ≤ r.now then l.up else l.up.drop (client.octetsRead (l.kernel r.answer))
  down := if client.deadline ≤ r.now then l.down else l.down ++ client.written (l.kernel r.answer)
  carried := l.carried ++ ((r.request codec texts l server).bind (handle.carried r.met daemon)).toList

/-- The daemon and its end of the sockets, and the connections in the order in which they were made, which
is the order in which they are accepted. -/
structure System (D W : Type) where
  server : Control.Server
  links : ℕ → Link D W
  connected : ℕ
  daemon : D

namespace System

/-- A connection that nobody has made. -/
def unused : Link D W where
  caller := ⟨.status, 0, .returned (.error ⟨.notConnected, ""⟩)⟩
  up := []
  down := []
  carried := []

def init (daemon : D) : System D W := ⟨.init, fun _ => unused, 0, daemon⟩

/-- The daemon's end of a connection: still to be accepted, or in the table. -/
def daemonOpen (s : System D W) (connection : ℕ) : Bool :=
  decide (s.server.accepted ≤ connection) ||
    s.server.clients.pending.entries.any fun entry => entry.2.stream.connection == connection

/-- What happens: a program connects, or takes a round of its loop; the daemon accepts connections that
wait, drops those that took too long, serves a descriptor, or does something that no request asked for. -/
inductive Op (D W : Type) where
  | connect (command : Command) (now : ℕ) (timeoutMs : U64)
  | round (connection now : ℕ) (answer : Answer) (waited : Except IoError Unit)
  | accept (now : ℕ) (answers : List Control.Accepted)
  | expire (now : ℕ)
  | ready (ready : Ready W)
  | works (daemon : D)

/-- A new connection at the end of the queue. -/
def connect (s : System D W) (command : Command) (until_ : ℕ) : System D W :=
  { s with
    links := Function.update s.links s.connected { unused with caller := .start codec command until_ }
    connected := s.connected + 1 }

def serve (s : System D W) (r : Ready W) : System D W :=
  match s.server.clients.pending.lookup r.fd with
  | none => s
  | some client =>
    let l := s.links client.stream.connection
    { s with
      server := s.server.serviceSlot codec texts (r.slot handle s.daemon l)
      links := Function.update s.links client.stream.connection
        (l.served codec texts handle s.server s.daemon client r)
      daemon := ((r.request codec texts l s.server).map fun request => (handle r.met s.daemon request).1).getD
        s.daemon }

def step (s : System D W) : Op D W → System D W
  | .connect command now timeoutMs =>
    match deadline now timeoutMs with
    | .error _ => s
    | .ok until_ => s.connect codec command until_
  | .round connection now answer waited =>
    { s with
      links := Function.update s.links connection
        ((s.links connection).round codec texts (s.daemonOpen connection) now answer waited) }
  | .accept now answers =>
    { s with server := s.server.accept now (answers.take (s.connected - s.server.accepted)) }
  | .expire now => { s with server := { s.server with clients := s.server.clients.expire now } }
  | .ready r => s.serve codec texts handle r
  | .works daemon => { s with daemon }

def machine : Transducer (System D W) (Op D W) Unit where
  step s op := (s.step codec texts handle op, ())

end System

end Sockets

end Handler

end Netd.Model.Exchange
