import Netd.Machine.Sifting
import Netd.Model.Core.Data

/-! # The kernel's replies to a request

`LinuxRtnl::next_sequence` and `LinuxRtnl::receive`, `decode_reply` and `check_reply_code` of
`netd/src/netlink.rs`. How a message is read out of the bytes is the business of another package, so
`NetlinkMessage::deserialize` is a parameter. What the socket hands over is a list, one entry for each
call of `recv`: a datagram, which `MSG_TRUNC` reports in its whole length, or the number of an error.
-/

namespace Netd.Model.Netlink

abbrev I32 := BitVec 32

/-- `i32::checked_neg`. -/
def checkedNeg (code : I32) : Option I32 := if code = BitVec.intMin 32 then none else some (-code)

structure NetlinkHeader where
  length : U32
  flags : U16
  sequenceNumber : U32
deriving DecidableEq, Repr

/-- The payload kinds that are told apart. An error without a code is an acknowledgement. -/
inductive NetlinkPayload (M : Type*) where
  | done (code : I32)
  | error (code : Option { code : I32 // code ≠ 0 })
  | innerMessage (message : M)
  | overrun
  | noop
deriving DecidableEq

structure NetlinkMessage (M : Type*) where
  header : NetlinkHeader
  payload : NetlinkPayload M
deriving DecidableEq

/-- The `io::Error` of a request. What does not deserialize is invalid data as well. -/
inductive ReplyError (ε : Type*) where
  | invalidData (message : String)
  | unreadable (error : ε)
  | interrupted (message : String)
  | os (errno : I32)
deriving DecidableEq, Repr

/-- How a function of the source stands: not finished, stopped by a slice that is out of range, or
returned. -/
inductive Outcome (ε ρ : Type*) where
  | running
  | outOfRange
  | returned (result : Except (ReplyError ε) ρ)
deriving DecidableEq

def nlmFDumpIntr : U16 := 0x10

/-- `EINTR`, the error number of the kind `Interrupted`. -/
def eintr : I32 := 4

/-- The length of the buffer that `receive` reads into. -/
def bufferLength : ℕ := 65536

def nextSequence (sequence : U32) : U32 := max (sequence + 1) 1

/-- `(length + 3) & !3`. -/
def padded (length : ℕ) : ℕ := (length + 3) / 4 * 4

/-- `&bytes[offset..]`. -/
def sliceFrom (bytes : Bytes) (offset : ℕ) : Option Bytes :=
  if offset ≤ bytes.length then some (bytes.drop offset) else none

section Replies

variable {M ε : Type*}

def checkReplyCode (code : I32) : Except (ReplyError ε) Unit :=
  if code = 0 then .ok ()
  else
    match (checkedNeg code).filter fun value => BitVec.slt 0 value with
    | none => .error (.invalidData "invalid netlink error code")
    | some errno => .error (.os errno)

/-- What `decode_reply` does with a message whose length fits. -/
def react (sequence : U32) (message : NetlinkMessage M) : Verdict M (Except (ReplyError ε) Unit) :=
  if message.header.sequenceNumber = sequence then
    if message.header.flags &&& nlmFDumpIntr ≠ 0 then .stop (.error (.interrupted "interrupted netlink dump"))
    else
      match message.payload with
      | .done code => .stop (checkReplyCode code)
      | .error code => .stop (checkReplyCode (code.elim 0 Subtype.val))
      | .innerMessage message => .pass message
      | .overrun => .stop (.error (.invalidData "netlink receive overrun"))
      | .noop => .skip
  else .skip

variable (deserialize : Bytes → Except ε (NetlinkMessage M)) (sequence : U32)

/-- The loop of `decode_reply`, for so many rounds, from an offset on: what it calls back with, and
whether a reply has ended the request. -/
def decodeLoop (bytes : Bytes) : ℕ → ℕ → List M × Outcome ε Bool
  | 0, _ => ([], .running)
  | rounds + 1, offset =>
    if offset < bytes.length then
      match sliceFrom bytes offset with
      | none => ([], .outOfRange)
      | some slice =>
        match deserialize slice with
        | .error error => ([], .returned (.error (.unreadable error)))
        | .ok message =>
          let length := message.header.length.toNat
          if length < 16 ∨ bytes.length - offset < length then
            ([], .returned (.error (.invalidData "invalid netlink message length")))
          else
            match react sequence message with
            | .stop result => ([], .returned (result.map fun _ => true))
            | .pass message =>
              let later := decodeLoop bytes rounds (offset + padded length)
              (message :: later.1, later.2)
            | .skip => decodeLoop bytes rounds (offset + padded length)
    else ([], .returned (.ok false))

def decodeReply (bytes : Bytes) : List M × Outcome ε Bool :=
  if bytes = [] then ([], .returned (.error (.invalidData "empty netlink reply")))
  else decodeLoop deserialize sequence bytes (bytes.length / 16 + 1) 0

/-- What `receive` calls back with, and how it stands, after the socket has answered so many times. -/
def receive : List (Except I32 Bytes) → List M × Outcome ε Unit
  | [] => ([], .running)
  | .error errno :: later => if errno = eintr then receive later else ([], .returned (.error (.os errno)))
  | .ok datagram :: later =>
    if bufferLength < datagram.length then
      ([], .returned (.error (.invalidData "truncated netlink datagram")))
    else
      match decodeReply deserialize sequence datagram with
      | (called, .running) => (called, .running)
      | (called, .outOfRange) => (called, .outOfRange)
      | (called, .returned (.error error)) => (called, .returned (.error error))
      | (called, .returned (.ok true)) => (called, .returned (.ok ()))
      | (called, .returned (.ok false)) => (called ++ (receive later).1, (receive later).2)

end Replies

end Netd.Model.Netlink
