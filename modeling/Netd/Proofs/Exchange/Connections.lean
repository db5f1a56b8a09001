import Netd.Proofs.Exchange.Sockets
import Netd.Proofs.Wire.Sizes

/-! # One connection, at both ends

Each connection is followed with what the daemon's end of it holds: the part of the request that was read,
or the part of the reply that was written. The octets between the ends are what makes up the difference.
A round of the program keeps that, and so does a service of the daemon's.
-/

namespace Netd.Model.Exchange

open Wire Channel

section Connections

variable {D W ε : Type} (codec : Msgpack ε) (texts : Texts ε) (handle : Handler D W)

/-! ## What passes between the ends -/

/-- A handler that answers every request of a program, and leaves the daemon alone where it answers with
an error. -/
structure Handler.Answers (handle : Handler D W) : Prop where
  answers : ∀ met before (command : Command), ∃ after reply, handle met before command.request = (after, some reply)
  refused : ∀ met before request after message,
    handle met before request = (after, some (.error message)) → after = before

/-- A request that the writer accepts and that is not too large. -/
def Sendable (command : Command) : Prop :=
  ∃ octets, codec.toBytes command.request.tokens = some octets ∧ octets.length ≤ maxMessageBytes

/-- What is framed for a reply. -/
def replyPayload (reply : Reply) : Bytes :=
  if (reply.encode codec).length > maxMessageBytes then
    (Reply.error ((WireError.tooLarge (reply.encode codec).length).display texts)).encode codec
  else reply.encode codec

/-- The program has what the daemon wrote of a frame, or it is on its way; a success is made of all of it. -/
def Heard (l : Link D W) (said payload : Bytes) : Prop :=
  match l.caller.stage with
  | .sending _ => l.down = said
  | .receiving incoming => incoming ++ l.down = said
  | .returned (.ok result) =>
    said = frame payload ∧ settle l.caller.command (openFrame codec texts payload) = .ok result
  | .returned (.error _) | .stopped => True

/-- The daemon carried nothing out, and the program has heard nothing. -/
def Silent (l : Link D W) : Prop := l.carried = [] ∧ Heard codec texts l [] []

/-- The octets of the program's request. -/
def Link.request (l : Link D W) : Bytes := l.caller.command.request.encode codec

/-- The daemon has read the beginning of a request, and the rest is on its way or not yet written. A request
that is refused or too large is never written at all. -/
structure Reading (l : Link D W) (buf : Bytes) : Prop where
  before : buf.length < (frame (l.request codec)).length
  whole : ∃ rest, buf ++ l.up ++ rest = frame (l.request codec) ∧
    ∀ pending, l.caller.stage = .sending pending → pending = rest
  small : Sendable codec l.caller.command ∨ (l.callerOpen = false ∧ buf = [] ∧ l.up = [])

/-- The daemon handled the request once and has written this much of what it had to say. -/
def Answered (l : Link D W) (octets : Bytes) (sent : ℕ) : Prop :=
  Sendable codec l.caller.command ∧
    ∃ met before reply, (handle met before l.caller.command.request).2 = some reply ∧
      l.carried = (handle.carried met before l.caller.command.request).toList ∧
      octets = frame (replyPayload codec texts reply) ∧
      ((replyPayload codec texts reply).length ≤ maxMessageBytes →
        Heard codec texts l (octets.take sent) (replyPayload codec texts reply))

/-- A connection whose daemon's end is in a given state. What is written without a request goes to nobody. -/
def Held (l : Link D W) : Control.State → Prop
  | .reading buf => Silent codec texts l ∧ Reading codec l buf
  | .writing octets sent => (Silent codec texts l ∧ l.callerOpen = false) ∨ Answered codec texts handle l octets sent

/-- A connection, whatever became of the daemon's end. -/
def Gone (l : Link D W) : Prop := Silent codec texts l ∨ ∃ octets sent, Answered codec texts handle l octets sent

variable {codec texts handle} {l : Link D W}

theorem Held.gone {state : Control.State} (held : Held codec texts handle l state) : Gone codec texts handle l := by
  cases state with
  | reading buf => exact .inl held.1
  | writing octets sent =>
    obtain ⟨silent, _⟩ | answered := held
    · exact .inl silent
    · exact .inr ⟨octets, sent, answered⟩

theorem frame_ne_nil (payload : Bytes) : frame payload ≠ [] := fun none => by
  have length := length_frame payload
  rw [none, List.length_nil] at length
  omega

/-- Who has heard nothing has heard nothing of any frame. -/
theorem Heard.of_nil (heard : Heard codec texts l [] []) (payload : Bytes) : Heard codec texts l [] payload := by
  unfold Heard at heard ⊢
  cases stage : l.caller.stage with
  | returned result =>
    cases result with
    | ok reply =>
      rw [stage] at heard
      exact absurd heard.1.symm (frame_ne_nil [])
    | error e => trivial
  | stopped => trivial
  | sending pending =>
    rw [stage] at heard
    exact heard
  | receiving incoming =>
    rw [stage] at heard
    exact heard

/-! ## The program takes a round -/

/-- A round of sending hands over the next octets, or gives up. -/
theorem sendRound_spec (pending : Bytes) (until_ : ℕ) (round : SendRound) :
    (∃ count, sendRound pending until_ round =
        (pending.take count,
          if (pending.drop count).isEmpty then .receiving [] else .sending (pending.drop count))) ∨
      sendRound pending until_ round = ([], .sending pending) ∨
      ∃ e, sendRound pending until_ round = ([], .returned (.error e)) := by
  rw [sendRound]
  split_ifs
  · exact .inr (.inr ⟨_, rfl⟩)
  cases round.write with
  | ok count =>
    cases count with
    | zero => exact .inr (.inr ⟨_, rfl⟩)
    | succ count => exact .inl ⟨count + 1, rfl⟩
  | error e =>
    obtain ⟨kind, message⟩ := e
    cases kind with
    | interrupted => exact .inr (.inl rfl)
    | wouldBlock =>
      dsimp only
      cases round.waited with
      | ok _ => exact .inr (.inl rfl)
      | error e => exact .inr (.inr ⟨e, rfl⟩)
    | unexpectedEof => exact .inr (.inr ⟨_, rfl⟩)
    | timedOut => exact .inr (.inr ⟨_, rfl⟩)
    | invalidInput => exact .inr (.inr ⟨_, rfl⟩)
    | invalidData => exact .inr (.inr ⟨_, rfl⟩)
    | notConnected => exact .inr (.inr ⟨_, rfl⟩)
    | other => exact .inr (.inr ⟨_, rfl⟩)

/-- A beginning of a frame that can be received is no longer than the receiver reads. -/
theorem take_frame_inside {payload : Bytes} (small : payload.length ≤ maxMessageBytes) (sent : ℕ) :
    ((frame payload).take sent).length ≤ frameEnd ((frame payload).take sent) := by
  have ends := frameEnd_frame small []
  rw [List.append_nil] at ends
  have length := List.length_take_le sent (frame payload)
  have within := List.length_take_le' sent (frame payload)
  have header := four_le_frameEnd ((frame payload).take sent)
  by_cases short : ((frame payload).take sent).length < 4
  · omega
  · have fits : payload.length < 2 ^ 32 := Nat.lt_of_le_of_lt small (by decide)
    have announces := announced_frame fits []
    have known : announced ((frame payload).take sent) = announced (frame payload) := by
      rw [List.take_eq_take_min]
      refine announced_take (Nat.min_le_right _ _) ?_
      rw [List.length_take] at short
      omega
    rw [List.append_nil] at announces
    rw [frameEnd, if_neg short, known, announces, if_neg (Nat.not_lt.mpr small)]
    rw [length_frame] at within
    exact within

/-- A beginning of a frame that is there as a whole is all of it. -/
theorem take_frame_complete {payload : Bytes} (small : payload.length ≤ maxMessageBytes) {sent : ℕ}
    (complete : Complete ((frame payload).take sent)) : (frame payload).take sent = frame payload := by
  have fits : payload.length < 2 ^ 32 := Nat.lt_of_le_of_lt small (by decide)
  have announces := announced_frame fits []
  have known : announced ((frame payload).take sent) = announced (frame payload) := by
    rw [List.take_eq_take_min]
    refine announced_take (Nat.min_le_right _ _) ?_
    have known := complete.known
    rw [List.length_take] at known
    omega
  have whole := complete.whole
  rw [List.append_nil] at announces
  rw [known, announces, ← length_frame, List.length_take] at whole
  exact List.take_of_length_le (by omega)

variable (codec texts) in
/-- What a round leaves of the connection: only the program and the octets between the ends change, and a
program that has returned stays as it was. -/
theorem round_frame (l : Link D W) (daemonOpen : Bool) (now : ℕ) (answer : Answer) (waited : Except IoError Unit) :
    (l.round codec texts daemonOpen now answer waited).carried = l.carried ∧
      (l.round codec texts daemonOpen now answer waited).caller.command = l.caller.command ∧
      (l.callerOpen = false → l.round codec texts daemonOpen now answer waited = l) := by
  rw [Link.round, Link.callerOpen]
  cases l.caller.stage with
  | sending pending => exact ⟨rfl, rfl, nofun⟩
  | receiving incoming => exact ⟨rfl, rfl, nofun⟩
  | returned result => exact ⟨rfl, rfl, fun _ => rfl⟩
  | stopped => exact ⟨rfl, rfl, fun _ => rfl⟩

variable (codec texts) in
/-- A round of receiving hands over more of what the daemon wrote, makes the result of all of it, or gives
up. -/
theorem receiveRound_heard {payload : Bytes} (small : payload.length ≤ maxMessageBytes) {sent : ℕ}
    {stream incoming : Bytes} (heard : incoming ++ stream = (frame payload).take sent) (command : Command)
    (until_ : ℕ) (round : Round) :
    (∃ left read, receiveRound codec texts command until_ stream incoming round = (left, .receiving read) ∧
        read ++ left = (frame payload).take sent) ∨
      (∃ left e, receiveRound codec texts command until_ stream incoming round = (left, .returned (.error e))) ∨
      ((frame payload).take sent = frame payload ∧ ∃ left,
        receiveRound codec texts command until_ stream incoming round =
          (left, .returned (settle command (openFrame codec texts payload)))) := by
  have past : (⟨stream, incoming⟩ : Channel) = .past ((frame payload).take sent) incoming.length := by
    rw [← heard, Channel.past, List.drop_left, List.take_left]
  have within : incoming.length ≤ ((frame payload).take sent).length := by
    rw [← heard, List.length_append]
    exact Nat.le_add_right _ _
  rw [receiveRound, past]
  obtain ⟨j, result, same, ⟨_, _, _, rfl | ⟨e, rfl⟩⟩, _⟩ | ⟨complete, same⟩ :=
    @receiveRound_spec ε codec texts _ _ until_ within (within.trans (take_frame_inside small sent)) round
  · rw [same]
    exact .inl ⟨_, _, rfl, List.take_append_drop _ _⟩
  · rw [same]
    exact .inr (.inl ⟨_, e, rfl⟩)
  · have all := take_frame_complete small complete
    have opened := payload_frame (Nat.lt_of_le_of_lt small (by decide)) []
    rw [List.append_nil] at opened
    rw [same, answer, all, opened]
    exact .inr (.inr ⟨rfl, _, rfl⟩)

theorem Heard.round {payload : Bytes} (small : payload.length ≤ maxMessageBytes) {sent : ℕ}
    (heard : Heard codec texts l ((frame payload).take sent) payload) (daemonOpen : Bool) (now : ℕ)
    (answer : Answer) (waited : Except IoError Unit) :
    Heard codec texts (l.round codec texts daemonOpen now answer waited) ((frame payload).take sent) payload := by
  unfold Heard at heard
  cases stage : l.caller.stage with
  | returned result =>
    rw [(round_frame codec texts l daemonOpen now answer waited).2.2 (by rw [Link.callerOpen, stage])]
    unfold Heard
    exact heard
  | stopped =>
    rw [(round_frame codec texts l daemonOpen now answer waited).2.2 (by rw [Link.callerOpen, stage])]
    unfold Heard
    exact heard
  | sending pending =>
    rw [stage] at heard
    rw [Link.round, stage]
    dsimp only
    obtain ⟨count, same⟩ | same | ⟨e, same⟩ := sendRound_spec pending l.caller.until_
      ⟨now, Link.write pending daemonOpen answer, waited⟩
    · rw [same]
      unfold Heard
      dsimp only
      split_ifs
      · exact heard
      · exact heard
    · rw [same]
      exact heard
    · rw [same]
      trivial
  | receiving incoming =>
    rw [stage] at heard
    rw [Link.round, stage]
    dsimp only
    obtain ⟨left, read, same, heard⟩ | ⟨left, e, same⟩ | ⟨all, left, same⟩ := receiveRound_heard codec texts small
      heard l.caller.command l.caller.until_ ⟨now, l.read daemonOpen answer, waited⟩
    · rw [same]
      exact heard
    · rw [same]
      trivial
    · rw [same]
      unfold Heard
      dsimp only
      cases settled : settle l.caller.command (openFrame codec texts payload) with
      | ok result => exact ⟨all, rfl⟩
      | error e => trivial

theorem Silent.round (silent : Silent codec texts l) (daemonOpen : Bool) (now : ℕ) (answer : Answer)
    (waited : Except IoError Unit) : Silent codec texts (l.round codec texts daemonOpen now answer waited) := by
  obtain ⟨none, heard⟩ := silent
  refine ⟨(round_frame codec texts l daemonOpen now answer waited).1.trans none, ?_⟩
  have small : ([] : Bytes).length ≤ maxMessageBytes := Nat.zero_le _
  have heard : Heard codec texts l ((frame []).take 0) [] := heard
  exact heard.round small daemonOpen now answer waited

theorem Answered.round {octets : Bytes} {sent : ℕ} (answered : Answered codec texts handle l octets sent)
    (daemonOpen : Bool) (now : ℕ) (answer : Answer) (waited : Except IoError Unit) :
    Answered codec texts handle (l.round codec texts daemonOpen now answer waited) octets sent := by
  obtain ⟨sendable, met, before, reply, handled, carried, rfl, heard⟩ := answered
  obtain ⟨kept, command, _⟩ := round_frame codec texts l daemonOpen now answer waited
  refine ⟨?_, met, before, reply, ?_, ?_, rfl, fun small => (heard small).round small daemonOpen now answer waited⟩
  · rw [command]
    exact sendable
  · rw [command, handled]
  · rw [kept, command, carried]

/-- What a program has not written yet shrinks by what the daemon has still to read. -/
theorem Reading.round {buf : Bytes} (reading : Reading codec l buf) (daemonOpen : Bool) (now : ℕ)
    (answer : Answer) (waited : Except IoError Unit) :
    Reading codec (l.round codec texts daemonOpen now answer waited) buf := by
  obtain ⟨_, command, stays⟩ := round_frame codec texts l daemonOpen now answer waited
  cases opened : l.callerOpen with
  | false =>
    rw [stays opened]
    exact reading
  | true =>
    obtain ⟨before, ⟨rest, whole, pending⟩, small⟩ := reading
    have small := small.resolve_right fun closed => absurd (opened.symm.trans closed.1) Bool.true_eq_false.mp
    have same : (l.round codec texts daemonOpen now answer waited).request codec = l.request codec := by
      rw [Link.request, command, Link.request]
    refine ⟨by rwa [same], ?_, .inl (by rwa [command])⟩
    rw [same]
    rw [Link.round]
    cases stage : l.caller.stage with
    | returned result => exact ⟨rest, whole, fun pending stays => absurd (stage.symm.trans stays) nofun⟩
    | stopped => exact ⟨rest, whole, fun pending stays => absurd (stage.symm.trans stays) nofun⟩
    | receiving incoming =>
      refine ⟨rest, whole, fun pending stays => ?_⟩
      dsimp only at stays
      rw [receiveRound] at stays
      split at stays <;> cases stays
    | sending octets =>
      obtain rfl := pending octets stage
      dsimp only
      obtain ⟨count, sent⟩ | sent | ⟨e, sent⟩ := sendRound_spec octets l.caller.until_
        ⟨now, Link.write octets daemonOpen answer, waited⟩
      · rw [sent]
        refine ⟨octets.drop count, ?_, fun pending stays => ?_⟩
        · rw [← whole, List.append_assoc, List.append_assoc, List.append_assoc, List.take_append_drop]
        · dsimp only at stays
          split_ifs at stays
          obtain rfl := Stage.sending.inj stays
          rfl
      · rw [sent]
        refine ⟨octets, by rwa [List.append_nil], fun pending stays => ?_⟩
        obtain rfl := Stage.sending.inj stays
        rfl
      · rw [sent]
        exact ⟨octets, by rwa [List.append_nil], fun pending stays => nomatch stays⟩

theorem Held.round {state : Control.State} (held : Held codec texts handle l state) (daemonOpen : Bool) (now : ℕ)
    (answer : Answer) (waited : Except IoError Unit) :
    Held codec texts handle (l.round codec texts daemonOpen now answer waited) state := by
  cases state with
  | reading buf =>
    exact ⟨held.1.round daemonOpen now answer waited, held.2.round daemonOpen now answer waited⟩
  | writing octets sent =>
    obtain ⟨silent, closed⟩ | answered := held
    · rw [(round_frame codec texts l daemonOpen now answer waited).2.2 closed]
      exact .inl ⟨silent, closed⟩
    · exact .inr (answered.round daemonOpen now answer waited)

theorem Gone.round (gone : Gone codec texts handle l) (daemonOpen : Bool) (now : ℕ) (answer : Answer)
    (waited : Except IoError Unit) : Gone codec texts handle (l.round codec texts daemonOpen now answer waited) := by
  obtain silent | ⟨octets, sent, answered⟩ := gone
  · exact .inl (silent.round daemonOpen now answer waited)
  · exact .inr ⟨octets, sent, answered.round daemonOpen now answer waited⟩

/-! ## The daemon serves the connection -/

/-- What can be sent has small texts, and is as long as it is. -/
theorem Sendable.spells (verbatim : codec.Verbatim) {command : Command} (sendable : Sendable codec command) :
    command.request.Spells Spelt := by
  obtain ⟨octets, accepted, small⟩ := sendable
  intro token member
  cases token with
  | str text =>
    have inside : text.utf8ByteSize ≤ octets.length := verbatim accepted member
    exact (inside.trans small).trans_lt (by decide)
  | _ => trivial

theorem Sendable.length_le {command : Command} (sendable : Sendable codec command) :
    (command.request.encode codec).length ≤ maxMessageBytes := by
  obtain ⟨octets, accepted, small⟩ := sendable
  rwa [Wire.Request.encode, accepted, Option.getD_some]

/-- A request comes back from its octets. -/
theorem decode_request (lawful : codec.Lawful Spelt) {q : Wire.Request} (spells : q.Spells Spelt) :
    Wire.Request.decode codec (q.encode codec) = .ok q := by
  have finished : (q.parts.request : Except (WireError ε) Wire.Request) = .ok q := by
    cases q <;> rfl
  have written : q.encode codec = q.doc.encode codec := by rw [Wire.Request.encode, Doc.encode, q.tokens_doc]
  rw [written]
  exact (roundTrips lawful q.holds_doc (Wire.Request.fits_doc spells) finished).back

theorem decodeStream_frame {payload : Bytes} (small : payload.length ≤ maxMessageBytes) :
    Control.decodeStream codec (frame payload) = Wire.Request.decode codec payload := by
  have fits : payload.length < 2 ^ 32 := Nat.lt_of_le_of_lt small (by decide)
  have announces := announced_frame fits []
  have opened := payload_frame fits []
  have length := length_frame payload
  rw [List.append_nil] at announces opened
  rw [Control.decodeStream, if_neg (by omega), if_neg (by omega), if_neg (by omega), opened]

/-- How much of a request may be read at once: some of it. -/
theorem readCount_pos {buf rest : Bytes} (whole : buf ++ rest = frame (l.request codec))
    (small : (l.request codec).length ≤ maxMessageBytes) (before : buf.length < (frame (l.request codec)).length) :
    0 < Control.readCount buf := by
  have ends := frameEnd_frame small []
  have taken : (frame (l.request codec)).take buf.length = buf := by rw [← whole, List.take_left]
  rw [List.append_nil] at ends
  obtain ⟨wants, _⟩ := Control.readTarget_take before.le (by rwa [ends])
  have chunk : 0 < Control.ioChunk := by decide
  rw [taken] at wants
  rw [Control.readCount]
  omega

/-- What a read of the daemon's comes to, while it reads a request: nothing, the end of the stream of a
program that hung up, or more of the request. -/
theorem reading_advances (lawful : codec.Lawful Spelt) (verbatim : codec.Verbatim) {client : Control.Client}
    {buf : Bytes} (state : client.state = .reading buf) (reading : Reading codec l buf) (answer : Answer) :
    (client.octetsRead (l.kernel answer) = 0 ∧
        (client.advance codec (l.kernel answer) = (client, .pending) ∨
          client.advance codec (l.kernel answer) = (client, .closed) ∨
          (l.callerOpen = false ∧ ∃ e, client.advance codec (l.kernel answer) = (client, .request (.error e))))) ∨
      ∃ more, client.octetsRead (l.kernel answer) = more.length ∧ Sendable codec l.caller.command ∧
        client.advance codec (l.kernel answer) = ({ client with state := .reading (buf ++ more) },
          if buf ++ more = frame (l.request codec) then .request (.ok l.caller.command.request) else .pending) ∧
        (buf ++ more ≠ frame (l.request codec) →
          Reading codec { l with up := l.up.drop more.length } (buf ++ more)) := by
  obtain ⟨before, ⟨rest, whole, pending⟩, small⟩ := reading
  have same : client = { client with state := .reading buf } := by rw [← state]
  rw [Control.Client.octetsRead, Control.Client.advance, state]
  dsimp only
  cases answer with
  | refuse e =>
    obtain ⟨kind, message⟩ := e
    refine .inl ⟨rfl, ?_⟩
    cases kind with
    | wouldBlock => exact .inl rfl
    | interrupted => exact .inl rfl
    | unexpectedEof => exact .inr (.inl rfl)
    | timedOut => exact .inr (.inl rfl)
    | invalidInput => exact .inr (.inl rfl)
    | invalidData => exact .inr (.inl rfl)
    | notConnected => exact .inr (.inl rfl)
    | other => exact .inr (.inl rfl)
  | pass amount =>
    dsimp only [Link.kernel]
    by_cases waiting : (l.up.isEmpty && l.callerOpen) = true
    · rw [if_pos waiting]
      exact .inl ⟨rfl, .inl rfl⟩
    rw [if_neg waiting]
    cases octets : l.up.take (min (amount + 1) (Control.readCount buf)) with
    | nil =>
      refine .inl ⟨rfl, .inr (.inr ⟨?_, _, rfl⟩)⟩
      obtain sendable | ⟨closed, _⟩ := small
      · have asked := readCount_pos (by rwa [List.append_assoc] at whole) sendable.length_le before
        have ended : l.up = [] := by
          obtain none | ended := List.take_eq_nil_iff.mp octets
          · omega
          · exact ended
        rw [ended, List.isEmpty_nil, Bool.true_and, Bool.not_eq_true] at waiting
        exact waiting
      · exact closed
    | cons first later =>
      right
      obtain ⟨left, split⟩ : first :: later <+: l.up := octets ▸ List.take_prefix _ _
      obtain sendable | ⟨_, _, ended⟩ := small
      swap
      · rw [ended, List.append_eq_nil_iff] at split
        exact absurd split.1 (List.cons_ne_nil _ _)
      have small : (l.request codec).length ≤ maxMessageBytes := sendable.length_le
      dsimp only
      generalize first :: later = more at split
      have onward : buf ++ more ++ (left ++ rest) = frame (l.request codec) := by
        rw [← whole, ← split]
        simp only [List.append_assoc]
      have ends := frameEnd_frame small []
      rw [List.append_nil] at ends
      have length := congrArg List.length onward
      rw [List.length_append] at length
      have taken : (frame (l.request codec)).take (buf ++ more).length = buf ++ more := by
        rw [← onward, List.take_left]
      have inside : (buf ++ more).length ≤ frameEnd (frame (l.request codec)) := by omega
      have judged := Control.judge_take codec (by omega) inside
      rw [taken, ends, decodeStream_frame small, Link.request,
        decode_request lawful (sendable.spells verbatim)] at judged
      have complete : (buf ++ more).length = (frame (l.request codec)).length ↔
          buf ++ more = frame (l.request codec) := by
        refine ⟨fun same => ?_, fun same => by rw [same]⟩
        rw [← taken, same, List.take_length]
      refine ⟨more, rfl, sendable, ?_, fun incomplete => ⟨?_, ⟨rest, ?_, pending⟩, .inl sendable⟩⟩
      · rw [judged]
        exact congrArg _ (if_congr complete rfl rfl)
      · change (buf ++ more).length < (frame (l.request codec)).length
        have short : (buf ++ more).length ≠ (frame (l.request codec)).length := mt complete.mp incomplete
        omega
      · have unread : l.up.drop more.length = left := by rw [← split, List.drop_left]
        change buf ++ more ++ l.up.drop more.length ++ rest = frame (l.request codec)
        rw [unread, ← onward, List.append_assoc]

/-- Nothing is written to a program that hung up. -/
theorem written_closed (closed : l.callerOpen = false) (client : Control.Client) (answer : Answer) :
    client.written (l.kernel answer) = [] := by
  rw [Control.Client.written]
  cases client.state with
  | reading buf => rfl
  | writing octets sent =>
    dsimp only [Link.kernel]
    cases answer with
    | refuse e => rfl
    | pass amount =>
      dsimp only
      rw [closed, if_neg Bool.false_ne_true]

/-- What is written now is on its way. -/
theorem Heard.written {said payload more up : Bytes} {carried : List (Carried D W)}
    (heard : Heard codec texts l said payload) (closed : l.callerOpen = false → more = []) :
    Heard codec texts ⟨l.caller, up, l.down ++ more, carried⟩ (said ++ more) payload := by
  unfold Heard Link.callerOpen at *
  dsimp only
  cases stage : l.caller.stage with
  | sending pending =>
    rw [stage] at heard
    exact congrArg (· ++ more) heard
  | receiving incoming =>
    rw [stage] at heard
    dsimp only
    rw [← List.append_assoc]
    exact congrArg (· ++ more) heard
  | returned result =>
    rw [stage] at heard closed
    rw [closed rfl]
    simp only [List.append_nil]
    exact heard
  | stopped => trivial

variable (codec texts handle) in
/-- What a service leaves of a connection, and of the table under its descriptor. -/
structure Left (l : Link D W) (stream : Control.Stream) (fd : ℕ) (table : Control.Clients) : Prop where
  gone : Gone codec texts handle l
  held : ∀ client, table.pending.lookup fd = some client →
    client.stream = stream ∧ Held codec texts handle l client.state

theorem Left.erased {stream : Control.Stream} {fd : ℕ} (table : SortedMap ℕ Control.Client)
    (gone : Gone codec texts handle l) : Left codec texts handle l stream fd ⟨table.erase fd⟩ where
  gone := gone
  held client there := by
    rw [SortedMap.lookup_erase, if_pos rfl] at there
    cases there

theorem Left.inserted {fd : ℕ} (table : SortedMap ℕ Control.Client) (client : Control.Client)
    (held : Held codec texts handle l client.state) :
    Left codec texts handle l client.stream fd ⟨table.insert fd client⟩ where
  gone := held.gone
  held after there := by
    rw [SortedMap.lookup_insert_self] at there
    obtain rfl := Option.some.inj there
    exact ⟨rfl, held⟩

section Served

variable {s : Control.Server} {daemon : D} {client : Control.Client} {r : Ready W}

theorem served_late (found : s.clients.pending.lookup r.fd = some client) (late : client.deadline ≤ r.now) :
    l.served codec texts handle s daemon client r = l := by
  rw [Link.served, Ready.request, Control.service_late codec texts found late, if_pos late, if_pos late]
  simp

theorem served_inTime (inTime : ¬client.deadline ≤ r.now) {clients : Control.Clients}
    {request : Option (Control.Stream × Wire.Request)}
    (serviced : s.clients.service codec texts r.fd r.now (l.kernel r.answer) = (clients, request)) :
    l.served codec texts handle s daemon client r =
      ⟨l.caller, l.up.drop (client.octetsRead (l.kernel r.answer)), l.down ++ client.written (l.kernel r.answer),
        l.carried ++ ((request.map Prod.snd).bind (handle.carried r.met daemon)).toList⟩ := by
  rw [Link.served, Ready.request, serviced, if_neg inTime, if_neg inTime]

theorem slot_quiet {clients : Control.Clients}
    (serviced : s.clients.service codec texts r.fd r.now (l.kernel r.answer) = (clients, none)) :
    (s.serviceSlot codec texts (r.slot handle daemon l)).clients = clients := by
  simp only [Control.Server.serviceSlot, Ready.slot, serviced]

theorem slot_request {clients : Control.Clients} {stream : Control.Stream} {request : Wire.Request} {reply : Reply}
    (serviced : s.clients.service codec texts r.fd r.now (l.kernel r.answer) = (clients, some (stream, request)))
    (handled : (handle r.met daemon request).2 = some reply) :
    (s.serviceSlot codec texts (r.slot handle daemon l)).clients = clients.reply codec texts stream reply r.later := by
  simp only [Control.Server.serviceSlot, Ready.slot, serviced, handled]

variable (found : s.clients.pending.lookup r.fd = some client)

include found

/-- A service of a descriptor that is reading. -/
theorem reading_left (lawful : codec.Lawful Spelt) (verbatim : codec.Verbatim) (answering : handle.Answers)
    (inTime : ¬client.deadline ≤ r.now) (keyed : client.stream.fd = r.fd) {buf : Bytes}
    (state : client.state = .reading buf) (silent : Silent codec texts l) (reading : Reading codec l buf) :
    Left codec texts handle (l.served codec texts handle s daemon client r) client.stream r.fd
      (s.serviceSlot codec texts (r.slot handle daemon l)).clients := by
  have unwritten : client.written (l.kernel r.answer) = [] := (Control.advance_reading codec state _).1
  have same {clients : Control.Clients} (nothing : client.octetsRead (l.kernel r.answer) = 0)
      (serviced : s.clients.service codec texts r.fd r.now (l.kernel r.answer) = (clients, none)) :
      l.served codec texts handle s daemon client r = l := by
    rw [served_inTime inTime serviced, nothing, unwritten]
    simp
  obtain ⟨nothing, advanced | advanced | ⟨closed, e, advanced⟩⟩ | ⟨more, amount, sendable, advanced, onward⟩ :=
    reading_advances lawful verbatim state reading r.answer
  · have serviced := Control.service_pending codec texts found inTime advanced
    rw [same nothing serviced, slot_quiet serviced]
    exact .inserted _ client (state ▸ ⟨silent, reading⟩)
  · have serviced := Control.service_closed codec texts found inTime advanced
    rw [same nothing serviced, slot_quiet serviced]
    exact .erased _ (.inl silent)
  · have serviced := Control.service_error codec texts found inTime advanced
    rw [same nothing serviced, slot_quiet serviced]
    exact .inserted _ (client.reply codec texts (.error (e.display texts)) r.now) (.inl ⟨silent, closed⟩)
  · obtain ⟨none, heard⟩ := silent
    by_cases complete : buf ++ more = frame (l.request codec)
    · rw [if_pos complete] at advanced
      have serviced := Control.service_request codec texts found inTime advanced
      obtain ⟨after, reply, handled⟩ := answering.answers r.met daemon l.caller.command
      have replied : (handle r.met daemon l.caller.command.request).2 = some reply := by rw [handled]
      have table : Control.Clients.reply codec texts ⟨s.clients.pending.erase r.fd⟩ client.stream reply r.later =
          ⟨s.clients.pending.insert r.fd (client.reply codec texts reply r.later)⟩ := by
        rw [Control.Clients.reply, keyed, SortedMap.insert_erase]
        rfl
      rw [served_inTime inTime serviced, slot_request serviced replied, unwritten, none, table]
      refine .inserted _ (client.reply codec texts reply r.later)
        (.inr ⟨sendable, r.met, daemon, reply, replied, rfl, rfl, fun _ => ?_⟩)
      exact (heard.of_nil _).written fun _ => rfl
    · rw [if_neg complete] at advanced
      have serviced := Control.service_pending codec texts found inTime advanced
      rw [served_inTime inTime serviced, slot_quiet serviced, unwritten, amount]
      obtain ⟨before, whole, small⟩ := onward complete
      refine .inserted _ { client with state := .reading (buf ++ more) } ⟨⟨?_, ?_⟩, before, whole, small⟩
      · rw [none]
        rfl
      · exact heard.written fun _ => rfl

/-- A service of a descriptor that is writing. -/
theorem writing_left (inTime : ¬client.deadline ≤ r.now) {octets : Bytes} {sent : ℕ}
    (state : client.state = .writing octets sent) (held : Held codec texts handle l (.writing octets sent)) :
    Left codec texts handle (l.served codec texts handle s daemon client r) client.stream r.fd
      (s.serviceSlot codec texts (r.slot handle daemon l)).clients := by
  have unread : client.octetsRead (l.kernel r.answer) = 0 := by rw [Control.Client.octetsRead, state]
  have nothing {clients : Control.Clients}
      (serviced : s.clients.service codec texts r.fd r.now (l.kernel r.answer) = (clients, none)) :
      l.served codec texts handle s daemon client r =
        ⟨l.caller, l.up, l.down ++ client.written (l.kernel r.answer), l.carried⟩ := by
    rw [served_inTime inTime serviced, unread]
    simp
  -- What the kernel takes goes to a program that is there, and continues the reply.
  have onward {taken : ℕ} (within : taken ≤ (Control.writeChunk octets sent).length)
      (wrote : client.written (l.kernel r.answer) = (Control.writeChunk octets sent).take taken) :
      Held codec texts handle ⟨l.caller, l.up, l.down ++ client.written (l.kernel r.answer), l.carried⟩
        (.writing octets (sent + taken)) := by
    obtain ⟨silent, closed⟩ | ⟨sendable, met, before, reply, handled, carried, same, heard⟩ := held
    · rw [written_closed closed, List.append_nil]
      exact .inl ⟨silent, closed⟩
    · refine .inr ⟨sendable, met, before, reply, handled, carried, same, fun small => ?_⟩
      rw [← Control.take_append_writeChunk within, ← wrote]
      exact (heard small).written fun closed => written_closed closed client r.answer
  obtain ⟨⟨taken, within, wrote⟩, progress⟩ := Control.advance_writing codec state (l.kernel r.answer)
  obtain done | ⟨taken, within, wrote, advanced⟩ := progress
  · have serviced := Control.service_closed codec texts found inTime
      (show client.advance codec (l.kernel r.answer) = (_, .closed) from Prod.ext rfl done)
    rw [nothing serviced, slot_quiet serviced]
    exact .erased _ (onward within wrote).gone
  · have serviced := Control.service_pending codec texts found inTime advanced
    rw [nothing serviced, slot_quiet serviced]
    exact .inserted _ { client with state := .writing octets (sent + taken) } (onward within wrote)

theorem served_left (lawful : codec.Lawful Spelt) (verbatim : codec.Verbatim) (answering : handle.Answers)
    (keyed : client.stream.fd = r.fd) (held : Held codec texts handle l client.state) :
    Left codec texts handle (l.served codec texts handle s daemon client r) client.stream r.fd
      (s.serviceSlot codec texts (r.slot handle daemon l)).clients := by
  by_cases late : client.deadline ≤ r.now
  · rw [served_late found late, slot_quiet (Control.service_late codec texts found late)]
    exact .erased _ held.gone
  cases state : client.state with
  | reading buf =>
    rw [state] at held
    exact reading_left found lawful verbatim answering late keyed state held.1 held.2
  | writing octets sent =>
    rw [state] at held
    exact writing_left found late state held

end Served

end Connections

end Netd.Model.Exchange
