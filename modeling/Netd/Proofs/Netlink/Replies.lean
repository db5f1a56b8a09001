import Mathlib.Data.List.TakeWhile
import Mathlib.Logic.Function.Iterate
import Mathlib.Tactic.SplitIfs
import Netd.Model.Replies

/-! # Replies are matched to their request

What a socket hands over is read as one stream: the messages of its datagrams, and a fault where no
message stands or a call of `recv` fails. Which request a message answers is its sequence number, so
what a request is told depends on the faults and on its own messages only, whatever a request before it
has left in the socket.
-/

namespace Netd.Model.Netlink

variable {M ε : Type*}

theorem length_le_padded (length : ℕ) : length ≤ padded length := by
  rw [padded]
  omega

theorem sliceFrom_of_le {bytes : Bytes} {offset : ℕ} (within : offset ≤ bytes.length) :
    sliceFrom bytes offset = some (bytes.drop offset) := if_pos within

/-- One thing found in what the socket hands over. -/
inductive Arrival (M ε : Type*) where
  | message (message : NetlinkMessage M)
  | fault (error : ReplyError ε)

namespace Arrival

/-- What a request makes of it. -/
def judge (sequence : U32) : Arrival M ε → Verdict M (Except (ReplyError ε) Unit)
  | .message reply => react sequence reply
  | .fault error => .stop (.error error)

/-- What the request makes of it that it belongs to. -/
def verdict : Arrival M ε → Verdict M (Except (ReplyError ε) Unit)
  | .message reply => react reply.header.sequenceNumber reply
  | .fault error => .stop (.error error)

/-- Faults are everybody's, a message is that of its sequence number. -/
def concerns (sequence : U32) : Arrival M ε → Bool
  | .message reply => reply.header.sequenceNumber == sequence
  | .fault _ => true

end Arrival

namespace NetlinkMessage

def interrupted (message : NetlinkMessage M) : Bool := message.header.flags &&& nlmFDumpIntr != 0

end NetlinkMessage

namespace NetlinkPayload

def inner : NetlinkPayload M → Option M
  | innerMessage message => some message
  | _ => none

/-- The payloads after which nothing more of a reply is expected. -/
def terminates : NetlinkPayload M → Bool
  | done _ | error _ | overrun => true
  | innerMessage _ | noop => false

/-- `DONE`, or an acknowledgement, with code 0. -/
def successful : NetlinkPayload M → Bool
  | done code => code == 0
  | error code => code.isNone
  | _ => false

end NetlinkPayload

namespace Arrival

def inner : Arrival M ε → Option M
  | .message reply => reply.payload.inner
  | .fault _ => none

/-- What nothing more is expected after. -/
def terminates : Arrival M ε → Bool
  | .message reply => reply.payload.terminates
  | .fault _ => true

/-- What ends a request that it concerns: beside the last of a reply, any part of a dump that was
interrupted. -/
def ends : Arrival M ε → Bool
  | .message reply => reply.interrupted || reply.payload.terminates
  | .fault _ => true

/-- What ends one well. -/
def completes : Arrival M ε → Bool
  | .message reply => !reply.interrupted && reply.payload.successful
  | .fault _ => false

end Arrival

section Reading

variable (deserialize : Bytes → Except ε (NetlinkMessage M))

/-- The messages that stand back to back in a datagram, each padded to four bytes if another follows, up
to a place where none stands. -/
inductive Reads : Bytes → List (Arrival M ε) → Prop where
  | nothing : Reads [] []
  | unreadable {bytes : Bytes} {error : ε} (nonempty : bytes ≠ []) (failed : deserialize bytes = .error error) :
      Reads bytes [.fault (.unreadable error)]
  | misfit {bytes : Bytes} {message : NetlinkMessage M} (nonempty : bytes ≠ [])
      (read : deserialize bytes = .ok message)
      (misfit : message.header.length.toNat < 16 ∨ bytes.length < message.header.length.toNat) :
      Reads bytes [.fault (.invalidData "invalid netlink message length")]
  | message {bytes : Bytes} {message : NetlinkMessage M} {later : List (Arrival M ε)} (nonempty : bytes ≠ [])
      (read : deserialize bytes = .ok message) (whole : 16 ≤ message.header.length.toNat)
      (fits : message.header.length.toNat ≤ bytes.length)
      (rest : Reads (bytes.drop (padded message.header.length.toNat)) later) :
      Reads bytes (.message message :: later)

/-- What the answers of a socket bring, in order. -/
inductive Delivered : List (Except I32 Bytes) → List (Arrival M ε) → Prop where
  | nothing : Delivered [] []
  | again {answers : List (Except I32 Bytes)} {stream : List (Arrival M ε)} (later : Delivered answers stream) :
      Delivered (.error eintr :: answers) stream
  | failed {errno : I32} {answers : List (Except I32 Bytes)} {stream : List (Arrival M ε)}
      (failed : errno ≠ eintr) (later : Delivered answers stream) :
      Delivered (.error errno :: answers) (.fault (.os errno) :: stream)
  | truncated {datagram : Bytes} {answers : List (Except I32 Bytes)} {stream : List (Arrival M ε)}
      (long : bufferLength < datagram.length) (later : Delivered answers stream) :
      Delivered (.ok datagram :: answers) (.fault (.invalidData "truncated netlink datagram") :: stream)
  | empty {answers : List (Except I32 Bytes)} {stream : List (Arrival M ε)} (later : Delivered answers stream) :
      Delivered (.ok [] :: answers) (.fault (.invalidData "empty netlink reply") :: stream)
  | datagram {datagram : Bytes} {arrivals stream : List (Arrival M ε)} {answers : List (Except I32 Bytes)}
      (nonempty : datagram ≠ []) (fits : datagram.length ≤ bufferLength) (reads : Reads deserialize datagram arrivals)
      (later : Delivered answers stream) : Delivered (.ok datagram :: answers) (arrivals ++ stream)

/-- Every datagram can be read in this way. -/
theorem exists_reads (bytes : Bytes) : ∃ arrivals, Reads deserialize bytes arrivals := by
  induction size : bytes.length using Nat.strong_induction_on generalizing bytes with
  | h n ih =>
    by_cases nonempty : bytes = []
    · subst nonempty
      exact ⟨[], .nothing⟩
    · cases read : deserialize bytes with
      | error error => exact ⟨_, .unreadable nonempty read⟩
      | ok message =>
        by_cases fits : 16 ≤ message.header.length.toNat ∧ message.header.length.toNat ≤ bytes.length
        · have less : (bytes.drop (padded message.header.length.toNat)).length < n := by
            have := length_le_padded message.header.length.toNat
            rw [List.length_drop]
            omega
          obtain ⟨later, rest⟩ := ih _ less _ rfl
          exact ⟨_, .message nonempty read fits.1 fits.2 rest⟩
        · exact ⟨_, .misfit nonempty read (by omega)⟩

/-- And so can everything a socket hands over. -/
theorem exists_delivered (answers : List (Except I32 Bytes)) : ∃ stream, Delivered deserialize answers stream := by
  induction answers with
  | nil => exact ⟨[], .nothing⟩
  | cons answer answers ih =>
    obtain ⟨stream, later⟩ := ih
    cases answer with
    | error errno =>
      by_cases again : errno = eintr
      · subst again
        exact ⟨stream, .again later⟩
      · exact ⟨_, .failed again later⟩
    | ok datagram =>
      by_cases nonempty : datagram = []
      · subst nonempty
        exact ⟨_, .empty later⟩
      · by_cases fits : datagram.length ≤ bufferLength
        · obtain ⟨arrivals, reads⟩ := exists_reads deserialize datagram
          exact ⟨_, .datagram nonempty fits reads later⟩
        · exact ⟨_, .truncated (by omega) later⟩

end Reading

/-! ## The loops -/

section Loops

variable {deserialize : Bytes → Except ε (NetlinkMessage M)} (sequence : U32)

/-- How `decode_reply` returns, from what a reader of its arrivals ends with. -/
def decoded : Option (Except (ReplyError ε) Unit) → Outcome ε Bool
  | none => .returned (.ok false)
  | some result => .returned (result.map fun _ => true)

/-- From any offset on, with a round for every sixteen bytes that are left, the loop reads what is there. -/
theorem decodeLoop_eq {bytes rest : Bytes} {arrivals : List (Arrival M ε)} (reads : Reads deserialize rest arrivals)
    {offset rounds : ℕ} (there : rest = bytes.drop offset) (enough : rest.length / 16 ≤ rounds) :
    decodeLoop deserialize sequence bytes (rounds + 1) offset =
      ((Sifting.run (Arrival.judge sequence) arrivals).1, decoded (Sifting.run (Arrival.judge sequence) arrivals).2) := by
  have lengths : rest.length = bytes.length - offset := by rw [there, List.length_drop]
  induction reads generalizing offset rounds with
  | nothing =>
    rw [List.length_nil] at lengths
    rw [decodeLoop, if_neg (by omega)]
    rfl
  | unreadable nonempty failed =>
    have inside : offset < bytes.length := by
      have := List.length_pos_iff.mpr nonempty
      omega
    rw [decodeLoop, if_pos inside, sliceFrom_of_le (Nat.le_of_lt inside)]
    dsimp only
    rw [← there, failed]
    rfl
  | misfit nonempty read misfit =>
    have inside : offset < bytes.length := by
      have := List.length_pos_iff.mpr nonempty
      omega
    rw [decodeLoop, if_pos inside, sliceFrom_of_le (Nat.le_of_lt inside)]
    dsimp only
    rw [← there, read]
    dsimp only
    rw [if_pos (by omega)]
    rfl
  | @message rest message later nonempty read whole fits reads ih =>
    have inside : offset < bytes.length := by
      have := List.length_pos_iff.mpr nonempty
      omega
    have onward : rest.drop (padded message.header.length.toNat) =
        bytes.drop (offset + padded message.header.length.toNat) := by rw [there, List.drop_drop]
    have less := length_le_padded message.header.length.toNat
    obtain ⟨more, rfl⟩ : ∃ more, rounds = more + 1 := by
      apply Nat.exists_eq_add_one_of_ne_zero
      omega
    have continued := @ih (offset + padded message.header.length.toNat) more onward
      (by rw [List.length_drop]; omega) (by rw [onward, List.length_drop])
    rw [decodeLoop, if_pos inside, sliceFrom_of_le (Nat.le_of_lt inside)]
    dsimp only
    rw [← there, read]
    dsimp only
    rw [if_neg (by omega), continued]
    have reacted : react sequence message = Arrival.judge (ε := ε) sequence (.message message) := rfl
    rw [reacted]
    cases verdict : Arrival.judge (ε := ε) sequence (.message message) with
    | skip => rw [Sifting.run_skip verdict]
    | pass what => rw [Sifting.run_pass verdict]
    | stop result =>
      rw [Sifting.run_stop verdict]
      rfl

theorem decodeReply_eq {datagram : Bytes} {arrivals : List (Arrival M ε)} (nonempty : datagram ≠ [])
    (reads : Reads deserialize datagram arrivals) :
    decodeReply deserialize sequence datagram =
      ((Sifting.run (Arrival.judge sequence) arrivals).1, decoded (Sifting.run (Arrival.judge sequence) arrivals).2) := by
  rw [decodeReply, if_neg nonempty]
  exact decodeLoop_eq sequence reads List.drop_zero.symm (Nat.le_refl _)

/-- How `receive` stands, from what a reader of the whole stream ends with. -/
def standing : Option (Except (ReplyError ε) Unit) → Outcome ε Unit
  | none => .running
  | some result => .returned result

theorem standing_eq_running {ended : Option (Except (ReplyError ε) Unit)} :
    standing ended = .running ↔ ended = none := by
  cases ended with
  | none => exact iff_of_true rfl rfl
  | some result => exact iff_of_false nofun nofun

theorem standing_eq_returned {ended : Option (Except (ReplyError ε) Unit)} {result : Except (ReplyError ε) Unit} :
    standing ended = .returned result ↔ ended = some result := by
  cases ended with
  | none => exact iff_of_false nofun nofun
  | some other => rw [standing, Outcome.returned.injEq, Option.some_inj]

/-- In what datagrams the stream arrives makes no difference. -/
theorem receive_eq {answers : List (Except I32 Bytes)} {stream : List (Arrival M ε)}
    (delivered : Delivered deserialize answers stream) :
    receive deserialize sequence answers =
      ((Sifting.run (Arrival.judge sequence) stream).1, standing (Sifting.run (Arrival.judge sequence) stream).2) := by
  induction delivered with
  | nothing => rfl
  | again later ih => rw [receive, if_pos rfl, ih]
  | failed failed later ih =>
    rw [receive, if_neg failed, Sifting.run_stop (by rfl)]
    rfl
  | truncated long later ih =>
    rw [receive, if_pos long, Sifting.run_stop (by rfl)]
    rfl
  | empty later ih =>
    rw [receive, List.length_nil, if_neg (Nat.not_lt_zero _), Sifting.run_stop (by rfl)]
    rfl
  | @datagram datagram arrivals stream answers nonempty fits reads later ih =>
    rw [receive, if_neg (Nat.not_lt.mpr fits), decodeReply_eq sequence nonempty reads]
    cases ended : (Sifting.run (Arrival.judge sequence) arrivals).2 with
    | none =>
      rw [Sifting.run_append_of_none ended]
      dsimp only [decoded]
      rw [ih]
    | some result =>
      rw [Sifting.run_append_of_some ended, ended]
      cases result <;> rfl

end Loops

/-! ## Sequence numbers -/

/-- Zero is left out. -/
theorem toNat_nextSequence (sequence : U32) : (nextSequence sequence).toNat = sequence.toNat % (2 ^ 32 - 1) + 1 := by
  have bound := sequence.isLt
  have step : (sequence + 1).toNat = (sequence.toNat + 1) % 2 ^ 32 := BitVec.toNat_add sequence 1
  rw [nextSequence, max_def]
  split_ifs with below
  · rw [BitVec.le_def, step] at below
    change 1 = _
    change _ ≤ 1 at below
    omega
  · rw [BitVec.le_def, step] at below
    change ¬ _ ≤ 1 at below
    rw [step]
    omega

theorem toNat_nextSequence_iterate {sequence : U32} (nonzero : sequence ≠ 0) (requests : ℕ) :
    (nextSequence^[requests] sequence).toNat = (sequence.toNat - 1 + requests) % (2 ^ 32 - 1) + 1 := by
  have positive : 0 < sequence.toNat := Nat.pos_of_ne_zero fun zero => nonzero (BitVec.eq_of_toNat_eq zero)
  have bound := sequence.isLt
  induction requests with
  | zero => rw [Function.iterate_zero, id]; omega
  | succ requests ih =>
    rw [Function.iterate_succ_apply', toNat_nextSequence, ih]
    omega

/-- What a request has left in the socket is another's for as long as not all numbers have been used. -/
theorem nextSequence_iterate_ne {sequence : U32} (nonzero : sequence ≠ 0) {requests : ℕ} (later : 0 < requests)
    (fewer : requests < 2 ^ 32 - 1) : nextSequence^[requests] sequence ≠ sequence := by
  intro again
  have number := toNat_nextSequence_iterate nonzero requests
  have bound := sequence.isLt
  have positive : 0 < sequence.toNat := Nat.pos_of_ne_zero fun zero => nonzero (BitVec.eq_of_toNat_eq zero)
  rw [again] at number
  omega

/-! ## What concerns a request -/

theorem checkReplyCode_eq_ok (code : I32) : (checkReplyCode code : Except (ReplyError ε) Unit) = .ok () ↔ code = 0 := by
  rw [checkReplyCode]
  split_ifs with zero
  · exact iff_of_true rfl zero
  · cases (checkedNeg code).filter fun value => BitVec.slt 0 value with
    | none => exact iff_of_false nofun zero
    | some errno => exact iff_of_false nofun zero

namespace NetlinkPayload

/-- What a request makes of a payload of its own in a message that is not flagged. -/
def verdict : NetlinkPayload M → Verdict M (Except (ReplyError ε) Unit)
  | done code => .stop (checkReplyCode code)
  | error code => .stop (checkReplyCode (code.elim 0 Subtype.val))
  | innerMessage message => .pass message
  | overrun => .stop (.error (.invalidData "netlink receive overrun"))
  | noop => .skip

theorem stopped_isNone (payload : NetlinkPayload M) :
    (payload.verdict (ε := ε)).stopped.isNone = !payload.terminates := by cases payload <;> rfl

theorem passed_eq (payload : NetlinkPayload M) : (payload.verdict (ε := ε)).passed = payload.inner := by
  cases payload <;> rfl

theorem stopped_eq_ok (payload : NetlinkPayload M) :
    (payload.verdict (ε := ε)).stopped = some (.ok ()) ↔ payload.successful = true := by
  cases payload with
  | done code =>
    rw [verdict, Verdict.stopped_stop, Option.some_inj, checkReplyCode_eq_ok]
    exact beq_iff_eq.symm
  | error code =>
    rw [verdict, Verdict.stopped_stop, Option.some_inj, checkReplyCode_eq_ok]
    cases code with
    | none => exact iff_of_true rfl rfl
    | some code => exact iff_of_false code.property Bool.false_ne_true
  | innerMessage message => exact iff_of_false nofun Bool.false_ne_true
  | overrun => exact iff_of_false nofun Bool.false_ne_true
  | noop => exact iff_of_false nofun Bool.false_ne_true

end NetlinkPayload

theorem react_interrupted {reply : NetlinkMessage M} (interrupted : reply.interrupted = true) :
    (react reply.header.sequenceNumber reply : Verdict M (Except (ReplyError ε) Unit)) =
      .stop (.error (.interrupted "interrupted netlink dump")) := by
  rw [react, if_pos rfl, if_pos (bne_iff_ne.mp interrupted)]

theorem react_plain {reply : NetlinkMessage M} (plain : reply.interrupted = false) :
    (react reply.header.sequenceNumber reply : Verdict M (Except (ReplyError ε) Unit)) = reply.payload.verdict := by
  rw [react, if_pos rfl, if_neg]
  · cases reply.payload <;> rfl
  · exact fun flagged => Bool.eq_false_iff.mp plain (bne_iff_ne.mpr flagged)

namespace Arrival

theorem judge_of_concerns {sequence : U32} {arrival : Arrival M ε} (concerned : arrival.concerns sequence = true) :
    arrival.judge sequence = arrival.verdict := by
  cases arrival with
  | message reply =>
    obtain rfl := eq_of_beq concerned
    rfl
  | fault error => rfl

theorem judge_of_not_concerns {sequence : U32} {arrival : Arrival M ε}
    (unconcerned : arrival.concerns sequence = false) : arrival.judge sequence = .skip := by
  cases arrival with
  | message reply => exact if_neg (ne_of_beq_false unconcerned)
  | fault error => cases unconcerned

theorem stopped_isNone (arrival : Arrival M ε) : arrival.verdict.stopped.isNone = !arrival.ends := by
  cases arrival with
  | fault error => rfl
  | message reply =>
    cases flagged : reply.interrupted with
    | true =>
      rw [verdict, react_interrupted flagged, ends, flagged]
      rfl
    | false => rw [verdict, react_plain flagged, NetlinkPayload.stopped_isNone, ends, flagged, Bool.false_or]

theorem passed_of_not_ends {arrival : Arrival M ε} (onward : arrival.ends = false) :
    arrival.verdict.passed = arrival.inner := by
  cases arrival with
  | fault error => cases onward
  | message reply =>
    have plain := (Bool.or_eq_false_iff.mp onward).1
    rw [verdict, react_plain plain, NetlinkPayload.passed_eq, inner]

theorem stopped_eq_ok (arrival : Arrival M ε) :
    arrival.verdict.stopped = some (.ok ()) ↔ arrival.completes = true := by
  cases arrival with
  | fault error => exact iff_of_false nofun Bool.false_ne_true
  | message reply =>
    cases flagged : reply.interrupted with
    | true =>
      rw [verdict, react_interrupted flagged, completes, flagged]
      exact iff_of_false nofun Bool.false_ne_true
    | false => rw [verdict, react_plain flagged, NetlinkPayload.stopped_eq_ok, completes, flagged, Bool.not_false,
        Bool.true_and]

end Arrival

/-- A request is told exactly the inner messages of its own up to the first arrival that ends it, and it
succeeds exactly when that is a `DONE` or an acknowledgement, with code 0, of a dump that was not
interrupted. No datagram keeps the loop going for more than a round for every sixteen bytes. -/
theorem replies_matched (deserialize : Bytes → Except ε (NetlinkMessage M)) (sequence : U32) :
    (∀ bytes rounds, bytes.length / 16 < rounds →
      (decodeLoop deserialize sequence bytes rounds 0).2 ≠ .running ∧
        (decodeLoop deserialize sequence bytes rounds 0).2 ≠ .outOfRange) ∧
      ∀ answers, (∃ stream, Delivered deserialize answers stream) ∧
        ∀ stream, Delivered deserialize answers stream →
          let own := stream.filter fun arrival => arrival.concerns sequence
          let reply := receive deserialize sequence answers
          reply.1 = (own.takeWhile fun arrival => !arrival.ends).filterMap Arrival.inner ∧
            (reply.2 = .running ↔ ∀ arrival ∈ own, arrival.ends = false) ∧ reply.2 ≠ .outOfRange ∧
            (reply.2 = .returned (.ok ()) ↔ ∃ before last after, own = before ++ last :: after ∧
              (∀ arrival ∈ before, arrival.ends = false) ∧ last.completes = true) := by
  refine ⟨fun bytes rounds enough => ?_, fun answers => ⟨exists_delivered deserialize answers, ?_⟩⟩
  · obtain ⟨arrivals, reads⟩ := exists_reads deserialize bytes
    obtain ⟨more, rfl⟩ := Nat.exists_eq_add_one_of_ne_zero (Nat.ne_zero_of_lt enough)
    rw [decodeLoop_eq sequence reads List.drop_zero.symm (Nat.le_of_lt_succ enough)]
    cases (Sifting.run (Arrival.judge sequence) arrivals).2 with
    | none => exact ⟨nofun, nofun⟩
    | some result => exact ⟨nofun, nofun⟩
  · intro stream delivered own reply
    have own_only : Sifting.run (Arrival.judge sequence) stream = Sifting.run Arrival.verdict own :=
      Sifting.run_filter (fun _ => Arrival.judge_of_concerns) (fun _ => Arrival.judge_of_not_concerns) stream
    have told : reply = ((Sifting.run Arrival.verdict own).1, standing (Sifting.run Arrival.verdict own).2) := by
      rw [← own_only]
      exact receive_eq sequence delivered
    have goes_on : ∀ arrival : Arrival M ε, arrival.verdict.stopped = none ↔ arrival.ends = false := by
      intro arrival
      rw [← Option.isNone_iff_eq_none, Arrival.stopped_isNone, Bool.not_eq_true']
    have ended : reply.2 = standing (own.findSome? fun arrival => arrival.verdict.stopped) := by
      rw [told, Sifting.run_stopped]
    rw [ended]
    refine ⟨?_, ?_, ?_, ?_⟩
    · rw [told, Sifting.run_passed, funext Arrival.stopped_isNone]
      apply List.filterMap_congr
      intro arrival member
      have onward : (!arrival.ends) = true := List.mem_takeWhile_imp (p := fun arrival : Arrival M ε => !arrival.ends) member
      exact Arrival.passed_of_not_ends ((Bool.not_eq_true' _).mp onward)
    · rw [standing_eq_running, List.findSome?_eq_none_iff]
      exact forall₂_congr fun arrival _ => goes_on arrival
    · cases own.findSome? fun arrival => arrival.verdict.stopped with
      | none => nofun
      | some result => nofun
    · rw [standing_eq_returned, List.findSome?_eq_some_iff]
      simp only [goes_on, Arrival.stopped_eq_ok, and_comm]

/-! ## A reader of the wire format -/

/-- Messages as they stand on the wire, the inner ones as their bytes. -/
def readMessage (bytes : Bytes) : Except String (NetlinkMessage Bytes) :=
  let number (first past : ℕ) := ((bytes.take past).drop first).reverse
  let header : NetlinkHeader := ⟨fromBeBytes (number 0 4), fromBeBytes (number 6 8), fromBeBytes (number 8 12)⟩
  let kind : U16 := fromBeBytes (number 4 6)
  let body := (bytes.take header.length.toNat).drop 16
  let code : I32 := fromBeBytes (number 16 20)
  if bytes.length < 16 ∨ header.length.toNat < 16 ∨ bytes.length < header.length.toNat then
    .error "invalid netlink buffer"
  else if kind = 1 then .ok ⟨header, .noop⟩
  else if kind = 4 then .ok ⟨header, .overrun⟩
  else if kind = 2 ∨ kind = 3 then
    if body.length < 4 then .error "invalid netlink buffer"
    else if kind = 3 then .ok ⟨header, .done code⟩
    else .ok ⟨header, .error (if nonzero : code = 0 then none else some ⟨code, nonzero⟩)⟩
  else .ok ⟨header, .innerMessage body⟩

/-- A message with a body of at most 239 bytes. -/
def wireMessage (kind flags sequence : U8) (body : Bytes) : Bytes :=
  [BitVec.ofNat 8 (16 + body.length), 0, 0, 0, kind, 0, flags, 0, sequence, 0, 0, 0, 0, 0, 0, 0] ++ body

/-- An `RTM_NEWLINK` without attributes, for the interface of index 2. -/
def linkBody : Bytes := [0, 0, 1, 0, 2, 0, 0, 0, 0, 0, 0, 0, 0, 0, 0, 0]

/-- After what an earlier request has left, a dump of one link. -/
def dumpAnswers : List (Except I32 Bytes) :=
  [.ok (wireMessage 16 2 6 linkBody ++ wireMessage 3 2 6 [0, 0, 0, 0]), .error eintr,
    .ok (wireMessage 16 2 7 linkBody ++ wireMessage 3 2 7 [0, 0, 0, 0])]

theorem dump_delivered : Delivered readMessage dumpAnswers
    ([.message ⟨⟨32, 2, 6⟩, .innerMessage linkBody⟩, .message ⟨⟨20, 2, 6⟩, .done 0⟩] ++
      ([.message ⟨⟨32, 2, 7⟩, .innerMessage linkBody⟩, .message ⟨⟨20, 2, 7⟩, .done 0⟩] ++ [])) := by
  have reads (sequence : U8) (which : sequence = 6 ∨ sequence = 7) :
      Reads readMessage (wireMessage 16 2 sequence linkBody ++ wireMessage 3 2 sequence [0, 0, 0, 0])
        [.message ⟨⟨32, 2, sequence.setWidth 32⟩, .innerMessage linkBody⟩,
          .message ⟨⟨20, 2, sequence.setWidth 32⟩, .done 0⟩] := by
    rcases which with rfl | rfl
    all_goals
      apply Reads.message (by decide) (by decide +kernel) (by decide) (by decide)
      apply Reads.message (by decide) (by decide +kernel) (by decide) (by decide)
      exact .nothing
  apply Delivered.datagram (by decide) (by decide) (reads 6 (Or.inl rfl))
  apply Delivered.again
  apply Delivered.datagram (by decide) (by decide) (reads 7 (Or.inr rfl))
  exact .nothing

theorem dump_after_leftovers : (receive readMessage 7 dumpAnswers).1 = [linkBody] ∧
    (decodeLoop readMessage 7 (wireMessage 3 2 7 [0, 0, 0, 0]) 2 0).2 ≠ .running :=
  ⟨(((replies_matched readMessage 7).2 dumpAnswers).2 _ dump_delivered).1.trans (by decide +kernel),
    ((replies_matched readMessage 7).1 (wireMessage 3 2 7 [0, 0, 0, 0]) 2 (by decide)).1⟩

/-- A flagged part of an interrupted dump comes before the end of the dump, and is not passed on. -/
theorem interrupted_part_withheld : ¬∀ answers stream, Delivered readMessage answers stream →
    (receive readMessage 7 answers).1 =
      ((stream.filter fun arrival => arrival.concerns 7).takeWhile fun arrival => !arrival.terminates).filterMap
        Arrival.inner := by
  intro every
  have reads : Reads readMessage (wireMessage 16 0x12 7 linkBody ++ wireMessage 3 2 7 [0, 0, 0, 0])
      [.message ⟨⟨32, 0x12, 7⟩, .innerMessage linkBody⟩, .message ⟨⟨20, 2, 7⟩, .done 0⟩] := by
    apply Reads.message (by decide) (by decide +kernel) (by decide) (by decide)
    apply Reads.message (by decide) (by decide +kernel) (by decide) (by decide)
    exact .nothing
  have told := every _ _ (.datagram (by decide) (by decide) reads .nothing)
  revert told
  decide +kernel

end Netd.Model.Netlink
