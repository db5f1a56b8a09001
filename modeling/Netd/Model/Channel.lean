import Netd.Model.Wire

/-! # The client's end of a subscription

`Channel::receive` of `libnetd/src/channel.rs` and `peios_netd_subscription_next` of `libnetd/src/lib.rs`.
The stream of a channel is everything the server writes that has not been read, whether it has arrived
or not; the kernel decides how much of it each read hands over. A call runs through the rounds of its
loop, each with an instant and the kernel's answers.
-/

set_option linter.dupNamespace false

namespace Netd.Model.Channel

open Wire

structure IoError where
  kind : ErrorKind
  message : String
deriving DecidableEq, Repr

def invalid (message : String) : IoError := ⟨.invalidInput, message⟩

/-- The last instant there is: `i64::MAX` seconds and all nanoseconds of the last. -/
def lastInstant : ℕ := Duration.fromSecs (2 ^ 63) - 1

def deadline (now : ℕ) (timeoutMs : U64) : Except IoError ℕ :=
  if timeoutMs = 0 then .error (invalid "timeout_ms must be positive")
  else if now + Duration.fromMillis timeoutMs.toNat ≤ lastInstant then
    .ok (now + Duration.fromMillis timeoutMs.toNat)
  else .error (invalid "timeout is too large")

/-- One round of the receiving loop: the instant at its top, how the kernel answers a read (with at most
one octet more than the number given, at the end of the stream with none), and what waiting for more
comes to. -/
structure Round where
  now : ℕ
  read : Except IoError ℕ
  waited : Except IoError Unit

structure Channel where
  stream : Bytes
  incoming : Bytes
deriving DecidableEq, Repr

section Receiving

variable {ε : Type} (codec : Msgpack ε) (texts : Texts ε)

/-- The reply in a whole frame, without its header. -/
def openFrame (payload : Bytes) : Except IoError Reply :=
  match Reply.decode codec payload with
  | .ok reply => .ok reply
  | .error e => .error ⟨.invalidData, e.display texts⟩

namespace Channel

/-- Read towards a buffer of `needed` octets; `none` goes round again. -/
def fill (c : Channel) (needed : ℕ) (round : Round) : Channel × Option (Except IoError Reply) :=
  let capacity := min 4096 (needed - c.incoming.length)
  match round.read with
  | .ok more =>
    let octets := c.stream.take (min (more + 1) capacity)
    if octets.isEmpty then (c, some (.error ⟨.unexpectedEof, "netd closed mid-reply"⟩))
    else (⟨c.stream.drop octets.length, c.incoming ++ octets⟩, none)
  | .error e =>
    match e.kind with
    | .interrupted => (c, none)
    | .wouldBlock =>
      match round.waited with
      | .ok () => (c, none)
      | .error e => (c, some (.error e))
    | _ => (c, some (.error e))

/-- One round of the loop. -/
def receiveRound (c : Channel) (until_ : ℕ) (round : Round) : Channel × Option (Except IoError Reply) :=
  if until_ < round.now then (c, some (.error ⟨.timedOut, "netd operation timed out"⟩))
  else if c.incoming.length < 4 then c.fill 4 round
  else if announced c.incoming > maxMessageBytes then (c, some (.error (invalid "reply exceeds 64 KiB")))
  else if c.incoming.length = 4 + announced c.incoming then
    ({ c with incoming := [] }, some (openFrame codec texts (c.incoming.drop 4)))
  else c.fill (4 + announced c.incoming) round

/-- A call, as far as its rounds take it; `none` is a call that has not returned yet. -/
def receive (until_ : ℕ) : Channel → List Round → Channel × Option (Except IoError Reply)
  | c, [] => (c, none)
  | c, round :: rest =>
    match c.receiveRound codec texts until_ round with
    | (c, none) => receive until_ c rest
    | (c, some result) => (c, some result)

end Channel

/-- A subscription whose channel is gone is unusable. -/
abbrev Subscription := Option Channel

/-- A call of `subscription_next`: when, with which timeout, and what its rounds meet. -/
structure Call where
  now : ℕ
  timeoutMs : U64
  rounds : List Round

/-- What a subscription makes of a reply. -/
def expectSnapshot : Except IoError Reply → Except IoError Snapshot
  | .ok (.snapshot s) => .ok s
  | .ok (.error message) => .error ⟨.other, message⟩
  | .ok .ok | .ok (.status _) => .error (invalid "expected DNS snapshot")
  | .error e => .error e

/-- Every failure to receive but a timeout closes the channel. -/
def subscriptionNext (s : Subscription) (call : Call) : Subscription × Option (Except IoError Snapshot) :=
  match deadline call.now call.timeoutMs with
  | .error e => (s, some (.error e))
  | .ok until_ =>
    match s with
    | none => (none, some (.error ⟨.notConnected, "Transport endpoint is not connected (os error 107)"⟩))
    | some channel =>
      match channel.receive codec texts until_ call.rounds with
      | (channel, none) => (some channel, none)
      | (channel, some result) =>
        match expectSnapshot result with
        | .ok snapshot => (some channel, some (.ok snapshot))
        | .error e => (if e.kind = .timedOut then some channel else none, some (.error e))

end Receiving

end Netd.Model.Channel
