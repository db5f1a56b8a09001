import Netd.Model.Wire

/-! # The control socket

`Clients` of `netd/src/control.rs` and the part of `netd/src/event_loop.rs` that drives it: one request
and one reply per connection, with a deadline on each. A read or a write answers as the kernel does,
with at most what was asked for. Who may ask for what is decided elsewhere; here the daemon's answer
to a request is given.
-/

namespace Netd.Model.Control

open Wire

/-- Pending requests and replies have fixed deadlines. -/
def ioTimeout : ℕ := Duration.fromSecs 2

def maxClients : ℕ := 64

def acceptBatch : ℕ := 16

def ioChunk : ℕ := 4096

/-- A descriptor, and the connection the kernel keeps behind it. Descriptors are used again. -/
structure Stream where
  fd : ℕ
  connection : ℕ
deriving DecidableEq, Repr

/-- How the kernel answers the one system call a client makes when it is serviced. -/
structure Syscall where
  read : ℕ → Except ErrorKind Bytes
  write : Bytes → Except ErrorKind ℕ
  read_le : ∀ {capacity octets}, read capacity = .ok octets → octets.length ≤ capacity
  write_le : ∀ {octets taken}, write octets = .ok taken → taken ≤ octets.length

inductive State where
  | reading (buf : Bytes)
  | writing (frame : Bytes) (sent : ℕ)
deriving DecidableEq, Repr

structure Client where
  stream : Stream
  deadline : ℕ
  state : State
deriving DecidableEq, Repr

inductive Progress (ε : Type) where
  | pending
  | request (result : Except (WireError ε) Wire.Request)
  | closed

/-- Only the header is read until its length has been checked. -/
def readTarget (buf : Bytes) : ℕ := if buf.length < 4 then 4 else 4 + announced buf

/-- How much is asked for in one read. -/
def readCount (buf : Bytes) : ℕ := min (readTarget buf - buf.length) ioChunk

/-- What is offered in one write. -/
def writeChunk (frame : Bytes) (sent : ℕ) : Bytes := (frame.take (min (sent + ioChunk) frame.length)).drop sent

section Clients

variable {ε : Type} (codec : Msgpack ε) (texts : Texts ε)

namespace Client

/-- Begin to write a reply; one that is too large gives way to an error that says so. -/
def reply (c : Client) (reply : Reply) (now : ℕ) : Client :=
  let payload := reply.encode codec
  let payload :=
    if payload.length > maxMessageBytes then
      (Reply.error ((WireError.tooLarge payload.length).display texts)).encode codec
    else payload
  { c with
    state := .writing (frame payload) 0
    deadline := now + ioTimeout }

/-- What a buffer amounts to once something was read into it. -/
def judge (buf : Bytes) : Progress ε :=
  if 4 ≤ buf.length then
    if announced buf > maxMessageBytes then .request (.error (.tooLarge (announced buf)))
    else if buf.length = 4 + announced buf then .request (Wire.Request.decode codec (buf.drop 4))
    else .pending
  else .pending

def advance (c : Client) (kernel : Syscall) : Client × Progress ε :=
  match c.state with
  | .reading buf =>
    match kernel.read (readCount buf) with
    | .ok [] => (c, .request (.error (.io .unexpectedEof)))
    | .ok octets => ({ c with state := .reading (buf ++ octets) }, judge codec (buf ++ octets))
    | .error .wouldBlock | .error .interrupted => (c, .pending)
    | .error _ => (c, .closed)
  | .writing frame sent =>
    match kernel.write (writeChunk frame sent) with
    | .ok 0 => (c, .closed)
    | .ok taken =>
      ({ c with state := .writing frame (sent + taken) },
        if sent + taken = frame.length then .closed else .pending)
    | .error .wouldBlock | .error .interrupted => (c, .pending)
    | .error _ => (c, .closed)

end Client

/-- Pending connections by descriptor. -/
structure Clients where
  pending : SortedMap ℕ Client

namespace Clients

def empty : Clients := ⟨.empty⟩

def canAccept (s : Clients) : Bool := s.pending.entries.length < maxClients

def add (s : Clients) (stream : Stream) (now : ℕ) : Clients :=
  ⟨s.pending.insert stream.fd
    { stream
      deadline := now + ioTimeout
      state := .reading [] }⟩

def expire (s : Clients) (now : ℕ) : Clients := ⟨s.pending.filter fun _ c => c.deadline > now⟩

def service (s : Clients) (fd now : ℕ) (kernel : Syscall) : Clients × Option (Stream × Wire.Request) :=
  match s.pending.lookup fd with
  | none => (s, none)
  | some client =>
    let s : Clients := ⟨s.pending.erase fd⟩
    if client.deadline ≤ now then (s, none)
    else
      match client.advance codec kernel with
      | (client, .request (.ok request)) => (s, some (client.stream, request))
      | (client, .request (.error e)) =>
        (⟨s.pending.insert fd (client.reply codec texts (.error (e.display texts)) now)⟩, none)
      | (_, .closed) => (s, none)
      | (client, .pending) => (⟨s.pending.insert fd client⟩, none)

def reply (s : Clients) (stream : Stream) (reply : Reply) (now : ℕ) : Clients :=
  let client : Client :=
    { stream
      deadline := now
      state := .reading [] }
  ⟨s.pending.insert stream.fd (client.reply codec texts reply now)⟩

end Clients

/-! ## Driven by the event loop -/

/-- What the listener answers: a descriptor, and whether it could be made nonblocking; nobody waiting;
or a failure. -/
inductive Accepted where
  | ok (fd : ℕ) (nonblocking : Bool)
  | wouldBlock
  | failed

/-- The pending connections, and how many connections the kernel has handed out. -/
structure Server where
  clients : Clients
  accepted : ℕ

namespace Server

/-- Before the first connection. -/
def init : Server := ⟨.empty, 0⟩

/-- One round of `accept`. A connection that cannot be made nonblocking is closed at once. -/
def acceptOne (s : Server) (now fd : ℕ) (nonblocking : Bool) : Server where
  clients := if nonblocking then s.clients.add ⟨fd, s.accepted⟩ now else s.clients
  accepted := s.accepted + 1

/-- `for _ in 0..ACCEPT_BATCH`; a listener with no more answers has nobody waiting. -/
def acceptFrom (now : ℕ) : ℕ → Server → List Accepted → Server
  | 0, s, _ => s
  | _ + 1, s, [] => s
  | rounds + 1, s, answer :: rest =>
    if s.clients.canAccept then
      match answer with
      | .ok fd nonblocking => acceptFrom now rounds (s.acceptOne now fd nonblocking) rest
      | .wouldBlock | .failed => s
    else s

def accept (s : Server) (now : ℕ) (answers : List Accepted) : Server := acceptFrom now acceptBatch s answers

/-- A descriptor found ready: serviced, its request handled, and the reply begun. `handle` is what the
daemon replies; a subscription takes the connection over and gets no reply here. -/
structure Slot where
  fd : ℕ
  now : ℕ
  kernel : Syscall
  handle : Stream → Wire.Request → Option Reply
  later : ℕ

def serviceSlot (s : Server) (slot : Slot) : Server :=
  match s.clients.service codec texts slot.fd slot.now slot.kernel with
  | (clients, none) => { s with clients }
  | (clients, some (stream, request)) =>
    match slot.handle stream request with
    | none => { s with clients }
    | some reply => { s with clients := clients.reply codec texts stream reply slot.later }

/-- What the control section of the loop does, in whatever order and however often. -/
inductive Op where
  | expire (now : ℕ)
  | slot (slot : Slot)
  | accept (now : ℕ) (answers : List Accepted)

def step (s : Server) : Op → Server
  | .expire now => { s with clients := s.clients.expire now }
  | .slot slot => s.serviceSlot codec texts slot
  | .accept now answers => s.accept now answers

end Server

end Clients

end Netd.Model.Control
