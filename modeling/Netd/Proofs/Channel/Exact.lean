import Netd.Machine.Transducer
import Netd.Model.Channel
import Netd.Model.Messagepack
import Netd.Proofs.Wire.Frames

/-! # A subscription loses and repeats nothing

A channel is followed by how much of the stream it has read. Within a call it moves on towards the
end of the first frame and never past it; a call that times out leaves it where it is, and a call
that returns leaves it at the next frame. So the snapshots of the successful calls are the frames the
server wrote, one after another.
-/

set_option linter.dupNamespace false

namespace Netd.Model.Channel

open Wire

/-- A channel that has read the first `k` octets of a stream. -/
def Channel.past (stream : Bytes) (k : ℕ) : Channel := ⟨stream.drop k, stream.take k⟩

/-- The first frame of a stream is there as a whole, and is one that is read. -/
structure Complete (stream : Bytes) : Prop where
  known : 4 ≤ stream.length
  small : announced stream ≤ maxMessageBytes
  whole : 4 + announced stream ≤ stream.length

theorem Complete.frameEnd {stream : Bytes} (complete : Complete stream) :
    frameEnd stream = 4 + announced stream := by
  rw [Wire.frameEnd, if_neg (Nat.not_lt.mpr complete.known), if_neg (Nat.not_lt.mpr complete.small)]

/-- A frame that is not too large is there as a whole, whatever comes behind it. -/
theorem complete_frame {payload : Bytes} (small : payload.length ≤ maxMessageBytes) (more : Bytes) :
    Complete (frame payload ++ more) := by
  have fits : payload.length < 2 ^ 32 := Nat.lt_of_le_of_lt small (by decide)
  refine ⟨?_, ?_, ?_⟩
  · rw [List.length_append, length_frame]
    omega
  · rw [announced_frame fits]
    exact small
  · rw [announced_frame fits, List.length_append, length_frame]
    omega

namespace Round

/-- The kernel has something to hand over, be it the end of the stream. -/
def delivers (round : Round) : Bool :=
  match round.read with
  | .ok _ => true
  | .error _ => false

/-- Nothing goes wrong in the round: it is in time, and at worst there is nothing to read yet. -/
structure Patient (until_ : ℕ) (round : Round) : Prop where
  inTime : round.now ≤ until_
  fine : ∀ e, round.read = .error e → e.kind = .interrupted ∨ (e.kind = .wouldBlock ∧ round.waited = .ok ())

end Round

section Receiving

variable {ε : Type} (codec : Msgpack ε) (texts : Texts ε)

/-! ## One round -/

/-- The call goes on, or ends with an error. -/
def Unanswered (result : Option (Except IoError Reply)) : Prop :=
  result = none ∨ ∃ e, result = some (.error e)

/-- What reading towards a frame that is not there yet comes to. -/
theorem fill_spec {stream : Bytes} {k needed : ℕ} (within : k ≤ stream.length) (wants : k < needed) (round : Round) :
    ∃ j result, (Channel.past stream k).fill needed round = (Channel.past stream j, result) ∧ k ≤ j ∧
      j ≤ stream.length ∧ j ≤ needed ∧ Unanswered result ∧
      ∀ until_, round.Patient until_ → k < stream.length →
        result = none ∧ k + (if round.delivers then 1 else 0) ≤ j := by
  have length : (stream.take k).length = k := by rw [List.length_take, Nat.min_eq_left within]
  rw [Channel.fill, Round.delivers]
  cases read : round.read with
  | ok more =>
    dsimp only [Channel.past]
    rw [length]
    have handed : ((stream.drop k).take (min (more + 1) (min 4096 (needed - k)))).length =
        min (min (more + 1) (min 4096 (needed - k))) (stream.length - k) := by
      rw [List.length_take, List.length_drop]
    generalize taken : (stream.drop k).take (min (more + 1) (min 4096 (needed - k))) = octets at handed
    cases octets with
    | nil =>
      refine ⟨k, _, rfl, le_rfl, within, wants.le, .inr ⟨_, rfl⟩, fun _ _ before => ?_⟩
      rw [List.length_nil] at handed
      omega
    | cons first rest =>
      have joined : stream.take k ++ (first :: rest) = stream.take (k + (first :: rest).length) := by
        rw [handed, List.take_add, ← List.length_drop, ← List.take_eq_take_min, taken]
      refine ⟨k + (first :: rest).length, none, ?_, by omega, by omega, by omega, .inl rfl, fun _ _ _ => ⟨rfl, ?_⟩⟩
      · rw [← joined, List.drop_drop]
        rfl
      · rw [if_pos rfl, List.length_cons]
        omega
  | error e =>
    have nothing (result : Option (Except IoError Reply)) (unanswered : Unanswered result)
        (patient : ∀ until_, round.Patient until_ → result = none) :
        ∃ j after, (Channel.past stream k, result) = (Channel.past stream j, after) ∧ k ≤ j ∧
          j ≤ stream.length ∧ j ≤ needed ∧ Unanswered after ∧
          ∀ until_, round.Patient until_ → k < stream.length →
            after = none ∧ k + (if false = true then 1 else 0) ≤ j :=
      ⟨k, result, rfl, le_rfl, within, wants.le, unanswered, fun _ fine _ => ⟨patient _ fine, le_rfl⟩⟩
    obtain ⟨kind, message⟩ := e
    have refused (other : kind ≠ .interrupted ∧ kind ≠ .wouldBlock) :=
      nothing (some (.error ⟨kind, message⟩)) (.inr ⟨_, rfl⟩) fun until_ patient =>
        ((patient.fine _ read).elim other.1 fun both => other.2 both.1).elim
    cases kind with
    | interrupted => exact nothing none (.inl rfl) fun _ _ => rfl
    | wouldBlock =>
      dsimp only
      cases waited : round.waited with
      | ok _ => exact nothing none (.inl rfl) fun _ _ => rfl
      | error e =>
        refine nothing (some (.error e)) (.inr ⟨_, rfl⟩) fun until_ patient => ?_
        obtain wrong | ⟨_, fine⟩ := patient.fine _ read
        · contradiction
        · rw [waited] at fine
          contradiction
    | unexpectedEof => exact refused ⟨nofun, nofun⟩
    | timedOut => exact refused ⟨nofun, nofun⟩
    | invalidInput => exact refused ⟨nofun, nofun⟩
    | invalidData => exact refused ⟨nofun, nofun⟩
    | notConnected => exact refused ⟨nofun, nofun⟩
    | other => exact refused ⟨nofun, nofun⟩

/-- The channel moved on within the first frame of its stream, without an answer. -/
def Moved (stream : Bytes) (k j : ℕ) (result : Option (Except IoError Reply)) : Prop :=
  k ≤ j ∧ j ≤ stream.length ∧ j ≤ frameEnd stream ∧ Unanswered result

/-- The channel is past the first frame of its stream, and that is its answer. -/
def answer (stream : Bytes) : Channel × Option (Except IoError Reply) :=
  (.past (stream.drop (frameEnd stream)) 0,
    some (openFrame codec texts ((stream.drop 4).take (announced stream))))

/-- A round, by how much was read. -/
theorem receiveRound_past {stream : Bytes} {k : ℕ} (within : k ≤ stream.length) (until_ : ℕ) (round : Round) :
    (Channel.past stream k).receiveRound codec texts until_ round =
      if until_ < round.now then
        (.past stream k, some (.error ⟨.timedOut, "netd operation timed out"⟩))
      else if k < 4 then (Channel.past stream k).fill 4 round
      else if announced (stream.take k) > maxMessageBytes then
        (.past stream k, some (.error (invalid "reply exceeds 64 KiB")))
      else if k = 4 + announced (stream.take k) then
        (.past (stream.drop k) 0, some (openFrame codec texts ((stream.take k).drop 4)))
      else (Channel.past stream k).fill (4 + announced (stream.take k)) round := by
  have incoming : (Channel.past stream k).incoming = stream.take k := rfl
  have length : (stream.take k).length = k := by rw [List.length_take, Nat.min_eq_left within]
  simp only [Channel.receiveRound, incoming, length]
  rfl

variable {stream : Bytes} {k until_ : ℕ} (within : k ≤ stream.length) (inside : k ≤ frameEnd stream)

include within inside

/-- A round moves the channel on within the first frame of its stream, or returns that frame. -/
theorem receiveRound_spec (round : Round) :
    (∃ j result, (Channel.past stream k).receiveRound codec texts until_ round = (Channel.past stream j, result) ∧
        Moved stream k j result ∧
        (round.Patient until_ → Complete stream → k < frameEnd stream ∧ result = none ∧
          k + (if round.delivers then 1 else 0) ≤ j)) ∨
      (Complete stream ∧
        (Channel.past stream k).receiveRound codec texts until_ round = answer codec texts stream) := by
  have header := four_le_frameEnd stream
  rw [receiveRound_past codec texts within]
  by_cases late : until_ < round.now
  · refine .inl ⟨k, _, if_pos late, ⟨le_rfl, within, inside, .inr ⟨_, rfl⟩⟩, fun patient => ?_⟩
    exact absurd patient.inTime (Nat.not_le.mpr late)
  rw [if_neg late]
  by_cases short : k < 4
  · obtain ⟨j, result, same, forward, inStream, bounded, unanswered, progress⟩ := fill_spec within short round
    refine .inl ⟨j, result, (if_pos short).trans same, ⟨forward, inStream, by omega, unanswered⟩, ?_⟩
    intro patient complete
    have known := complete.known
    exact ⟨by omega, progress until_ patient (by omega)⟩
  have known : 4 ≤ k := Nat.not_lt.mp short
  have long : ¬stream.length < 4 := by omega
  rw [if_neg short, announced_take within known]
  by_cases large : announced stream > maxMessageBytes
  · refine .inl ⟨k, _, if_pos large, ⟨le_rfl, within, inside, .inr ⟨_, rfl⟩⟩, fun _ complete => ?_⟩
    exact absurd complete.small (Nat.not_le.mpr large)
  rw [if_neg large]
  have ends : frameEnd stream = 4 + announced stream := by
    rw [frameEnd, if_neg long, if_neg large]
  by_cases whole : k = 4 + announced stream
  · refine .inr ⟨⟨by omega, Nat.not_lt.mp large, by omega⟩, ?_⟩
    have payload : (stream.take k).drop 4 = (stream.drop 4).take (announced stream) := by
      rw [List.drop_take]
      congr 1
      omega
    rw [if_pos whole, answer, ends, ← whole, payload]
  · have wants : k < 4 + announced stream := by omega
    obtain ⟨j, result, same, forward, inStream, bounded, unanswered, progress⟩ := fill_spec within wants round
    refine .inl ⟨j, result, (if_neg whole).trans same, ⟨forward, inStream, by omega, unanswered⟩, ?_⟩
    intro patient complete
    have far := complete.whole
    exact ⟨by omega, progress until_ patient (by omega)⟩

/-! ## A whole call -/

/-- A call moves the channel on within the first frame of its stream, or returns that frame; it returns
where the frame is there and enough of it is handed over in time. -/
theorem receive_spec (rounds : List Round) :
    (∃ j result, Channel.receive codec texts until_ (.past stream k) rounds = (Channel.past stream j, result) ∧
        Moved stream k j result ∧
        ((∀ round ∈ rounds, round.Patient until_) → Complete stream →
          k + rounds.countP Round.delivers ≤ frameEnd stream)) ∨
      (Complete stream ∧
        Channel.receive codec texts until_ (.past stream k) rounds = answer codec texts stream) := by
  induction rounds generalizing k with
  | nil => exact .inl ⟨k, none, rfl, ⟨le_rfl, within, inside, .inl rfl⟩, fun _ _ => inside⟩
  | cons round rest ih =>
    rw [Channel.receive]
    obtain ⟨j, result, same, moved, progress⟩ | ⟨complete, same⟩ :=
      receiveRound_spec codec texts within inside round
    · rw [same]
      obtain ⟨forward, inStream, inFrame, rfl | ⟨e, rfl⟩⟩ := moved
      · obtain ⟨i, later, again, ⟨onward, far, fine, unanswered⟩, counted⟩ | done := ih inStream inFrame
        · refine .inl ⟨i, later, again, ⟨forward.trans onward, far, fine, unanswered⟩, ?_⟩
          intro patient complete
          obtain ⟨first, others⟩ := List.forall_mem_cons.mp patient
          have reached := counted others complete
          have step := (progress first complete).2.2
          rw [List.countP_cons]
          omega
        · exact .inr done
      · refine .inl ⟨j, _, rfl, ⟨forward, inStream, inFrame, .inr ⟨e, rfl⟩⟩, ?_⟩
        intro patient complete
        exact absurd (progress (List.forall_mem_cons.mp patient).1 complete).2.1 (Option.some_ne_none _)
    · rw [same]
      exact .inr ⟨complete, rfl⟩

end Receiving

/-! ## Frames the server wrote -/

/-- A payload whose length its header can announce. -/
structure Frame where
  payload : Bytes
  fits : payload.length < 2 ^ 32

/-- The octets of frames, one after another. -/
def written (frames : List Frame) : Bytes := frames.flatMap fun f => frame f.payload

theorem written_cons (f : Frame) (rest : List Frame) : written (f :: rest) = frame f.payload ++ written rest := rfl

section Frames

variable {f : Frame} {rest : List Frame}

variable (rest) in
theorem complete_written (small : f.payload.length ≤ maxMessageBytes) : Complete (written (f :: rest)) :=
  complete_frame small (written rest)

theorem small_of_complete (complete : Complete (written (f :: rest))) : f.payload.length ≤ maxMessageBytes := by
  have small := complete.small
  rwa [written_cons, announced_frame f.fits] at small

theorem not_complete_nil : ¬Complete (written []) := fun complete => absurd complete.known (by decide)

/-- What is behind the first of several frames. -/
theorem drop_frameEnd (small : f.payload.length ≤ maxMessageBytes) :
    (written (f :: rest)).drop (frameEnd (written (f :: rest))) = written rest := by
  rw [written_cons, frameEnd_frame small, List.drop_left]

theorem payload_written : ((written (f :: rest)).drop 4).take (announced (written (f :: rest))) = f.payload :=
  payload_frame f.fits (written rest)

end Frames

/-! ## Subscriptions -/

section Subscriptions

variable {ε : Type} (codec : Msgpack ε) (texts : Texts ε)

/-- The snapshot in a frame, if that is what it holds. -/
def delivered (f : Frame) : Option Snapshot :=
  if f.payload.length > maxMessageBytes then none
  else (expectSnapshot (openFrame codec texts f.payload)).toOption

/-- A subscription that is closed, or has read some of the first of these frames. -/
def Holding (frames : List Frame) (s : Subscription) : Prop :=
  ∀ c ∈ s, ∃ k, k ≤ (written frames).length ∧ k ≤ frameEnd (written frames) ∧ c = .past (written frames) k

/-- The snapshot of a successful call. -/
def success : Option (Except IoError Snapshot) → Option Snapshot
  | some (.ok snapshot) => some snapshot
  | some (.error _) | none => none

/-- What a call makes of an open subscription, by what its rounds came to. -/
def concluded (after : Channel) : Option (Except IoError Reply) → Subscription × Option (Except IoError Snapshot)
  | none => (some after, none)
  | some result =>
    match expectSnapshot result with
    | .ok snapshot => (some after, some (.ok snapshot))
    | .error e => (if e.kind = .timedOut then some after else none, some (.error e))

theorem subscriptionNext_some {c after : Channel} {call : Call} {until_ : ℕ}
    {result : Option (Except IoError Reply)} (accepted : deadline call.now call.timeoutMs = .ok until_)
    (received : c.receive codec texts until_ call.rounds = (after, result)) :
    subscriptionNext codec texts (some c) call = concluded after result := by
  rw [subscriptionNext, accepted]
  dsimp only
  rw [received]
  cases result <;> rfl

/-- A call without an answer returns no snapshot, and keeps the channel on a timeout only. -/
theorem concluded_unanswered (after : Channel) {result : Option (Except IoError Reply)}
    (unanswered : Unanswered result) :
    success (concluded after result).2 = none ∧ ((concluded after result).1 = some after ∨
      (concluded after result).1 = none) := by
  obtain rfl | ⟨e, rfl⟩ := unanswered
  · exact ⟨rfl, .inl rfl⟩
  · refine ⟨rfl, ?_⟩
    rw [concluded, expectSnapshot]
    dsimp only
    split_ifs
    · exact .inl rfl
    · exact .inr rfl

theorem concluded_ok {after : Channel} {result : Except IoError Reply} {snapshot : Snapshot}
    (opened : expectSnapshot result = .ok snapshot) :
    concluded after (some result) = (some after, some (.ok snapshot)) := by
  rw [concluded, opened]

theorem concluded_error {after : Channel} {result : Except IoError Reply} {e : IoError}
    (opened : expectSnapshot result = .error e) (kind : e.kind ≠ .timedOut) :
    concluded after (some result) = (none, some (.error e)) := by
  rw [concluded, opened]
  dsimp only
  rw [if_neg kind]

/-- A frame that was received is never taken for a timeout. -/
theorem openFrame_kind {payload : Bytes} {e : IoError}
    (refused : expectSnapshot (openFrame codec texts payload) = .error e) : e.kind ≠ .timedOut := by
  rw [openFrame] at refused
  cases decoded : Reply.decode codec payload with
  | error wrong =>
    rw [decoded] at refused
    obtain rfl := Except.error.inj refused
    exact nofun
  | ok reply =>
    rw [decoded] at refused
    cases reply with
    | snapshot snapshot => contradiction
    | error message =>
      obtain rfl := Except.error.inj refused
      exact nofun
    | ok =>
      obtain rfl := Except.error.inj refused
      exact nofun
    | status status =>
      obtain rfl := Except.error.inj refused
      exact nofun

theorem holding_past (frames : List Frame) {k : ℕ} (within : k ≤ (written frames).length)
    (inside : k ≤ frameEnd (written frames)) {s : Subscription}
    (left : s = some (.past (written frames) k) ∨ s = none) : Holding frames s := by
  rintro c member
  obtain rfl | rfl := left
  · exact ⟨k, within, inside, (Option.some.inj member).symm⟩
  · contradiction

/-- A call receives nothing, or the first frame. -/
theorem next_holding {frames : List Frame} {s : Subscription} (holding : Holding frames s) (call : Call) :
    (success (subscriptionNext codec texts s call).2 = none ∧
        Holding frames (subscriptionNext codec texts s call).1) ∨
      ∃ f rest snapshot, frames = f :: rest ∧ delivered codec texts f = some snapshot ∧
        (subscriptionNext codec texts s call).2 = some (.ok snapshot) ∧
        Holding rest (subscriptionNext codec texts s call).1 := by
  cases accepted : deadline call.now call.timeoutMs with
  | error e =>
    rw [subscriptionNext, accepted]
    exact .inl ⟨rfl, holding⟩
  | ok until_ =>
    cases s with
    | none =>
      rw [subscriptionNext, accepted]
      exact .inl ⟨rfl, holding⟩
    | some c =>
      obtain ⟨k, within, inside, rfl⟩ := holding c rfl
      obtain ⟨j, result, received, ⟨_, inStream, inFrame, unanswered⟩, _⟩ | ⟨complete, received⟩ :=
        receive_spec codec texts within inside call.rounds
      · rw [subscriptionNext_some codec texts accepted received]
        obtain ⟨nothing, left⟩ := concluded_unanswered (.past (written frames) j) unanswered
        exact .inl ⟨nothing, holding_past frames inStream inFrame left⟩
      · rw [subscriptionNext_some codec texts accepted received]
        cases frames with
        | nil => exact absurd complete not_complete_nil
        | cons f rest =>
          have small := small_of_complete complete
          rw [drop_frameEnd small, payload_written]
          cases opened : expectSnapshot (openFrame codec texts f.payload) with
          | ok snapshot =>
            rw [concluded_ok opened]
            refine .inr ⟨f, rest, snapshot, rfl, ?_, rfl,
              holding_past rest (Nat.zero_le _) (Nat.zero_le _) (.inl rfl)⟩
            rw [delivered, if_neg (Nat.not_lt.mpr small), opened]
            rfl
          | error e =>
            rw [concluded_error opened (openFrame_kind codec texts opened)]
            exact .inl ⟨rfl, fun _ none => nomatch none⟩

/-- Calls on a subscription, one after another. -/
def machine : Transducer Subscription Call (Option (Except IoError Snapshot)) where
  step := subscriptionNext codec texts

/-- The snapshots of any calls are the first of the frames, in order; the rest is still to be read. -/
theorem calls_holding {frames : List Frame} {s : Subscription} (holding : Holding frames s) (calls : List Call) :
    ∃ n ≤ frames.length, (frames.take n).map (delivered codec texts) =
        (((machine codec texts).outputs s calls).filterMap success).map some ∧
      Holding (frames.drop n) ((machine codec texts).run s calls) := by
  induction calls generalizing frames s with
  | nil => exact ⟨0, Nat.zero_le _, rfl, holding⟩
  | cons call rest ih =>
    obtain ⟨nothing, after⟩ | ⟨f, later, snapshot, rfl, received, told, after⟩ :=
      next_holding codec texts holding call
    · obtain ⟨n, bounded, same, left⟩ := ih after
      refine ⟨n, bounded, ?_, left⟩
      have none : success ((machine codec texts).output s call) = none := nothing
      rw [Transducer.outputs, List.filterMap_cons_none none]
      exact same
    · obtain ⟨n, bounded, same, left⟩ := ih after
      refine ⟨n + 1, Nat.succ_le_succ bounded, ?_, left⟩
      have first : success ((machine codec texts).output s call) = some snapshot := congrArg success told
      rw [Transducer.outputs, List.filterMap_cons_some first, List.take_succ_cons, List.map_cons, List.map_cons,
        received, same]
      rfl

/-! ## What a call may do to a subscription -/

/-- Nothing of what is unread is lost, and nothing behind the first frame is read. -/
structure Unread (left : List Frame) (c : Channel) : Prop where
  whole : c.incoming ++ c.stream = written left
  inside : c.incoming.length ≤ frameEnd (written left)

theorem unread_past {left : List Frame} {k : ℕ} (inside : k ≤ frameEnd (written left)) :
    Unread left (.past (written left) k) :=
  ⟨List.take_append_drop k _, (List.length_take_le k _).trans inside⟩

/-- A subscription between calls: `left` are the frames it has not returned. A failure to receive but a
timeout closes it for good, a timeout keeps what was read, a success leaves nothing of the frame
behind, and a call in which enough of the next frame is handed over in time returns that frame. -/
structure Proper (left : List Frame) (s : Subscription) : Prop where
  unread : ∀ c ∈ s, Unread left c
  closes : ∀ call until_ e, deadline call.now call.timeoutMs = .ok until_ →
    (subscriptionNext codec texts s call).2 = some (.error e) → e.kind ≠ .timedOut →
      (subscriptionNext codec texts s call).1 = none
  closed : s = none → ∀ call, ∃ e, subscriptionNext codec texts s call = (none, some (.error e))
  keeps : ∀ c ∈ s, ∀ call e, (subscriptionNext codec texts s call).2 = some (.error e) → e.kind = .timedOut →
    ∃ after, (subscriptionNext codec texts s call).1 = some after ∧ c.incoming <+: after.incoming ∧
      after.incoming ++ after.stream = written left
  clears : ∀ call snapshot, (subscriptionNext codec texts s call).2 = some (.ok snapshot) →
    ∃ after, (subscriptionNext codec texts s call).1 = some after ∧ after.incoming = []
  returns : ∀ c ∈ s, ∀ f rest, left = f :: rest → f.payload.length ≤ maxMessageBytes →
    ∀ call until_, deadline call.now call.timeoutMs = .ok until_ →
      (∀ round ∈ call.rounds, round.Patient until_) →
      (frame f.payload).length < c.incoming.length + call.rounds.countP Round.delivers →
        (subscriptionNext codec texts s call).2 = some (expectSnapshot (openFrame codec texts f.payload))

/-- An error that is not a timeout comes with a closed channel. -/
theorem concluded_closes {after : Channel} {result : Option (Except IoError Reply)} {e : IoError}
    (told : (concluded after result).2 = some (.error e)) :
    (concluded after result).1 = if e.kind = .timedOut then some after else none := by
  cases result with
  | none => contradiction
  | some result =>
    rw [concluded] at told ⊢
    cases opened : expectSnapshot result with
    | ok snapshot =>
      rw [opened] at told
      cases told
    | error other =>
      rw [opened] at told
      obtain rfl := Except.error.inj (Option.some.inj told)
      rfl

/-- A success keeps the channel. -/
theorem concluded_keeps {after : Channel} {result : Option (Except IoError Reply)} {snapshot : Snapshot}
    (told : (concluded after result).2 = some (.ok snapshot)) : (concluded after result).1 = some after := by
  cases result with
  | none => rfl
  | some result =>
    rw [concluded] at told ⊢
    cases opened : expectSnapshot result with
    | ok snapshot => rfl
    | error other =>
      rw [opened] at told
      cases told

/-- A call that received something says what it was. -/
theorem concluded_told (after : Channel) (result : Except IoError Reply) :
    (concluded after (some result)).2 = some (expectSnapshot result) := by
  rw [concluded]
  cases expectSnapshot result <;> rfl

theorem concluded_answered {after : Channel} {payload : Bytes} {e : IoError}
    (told : (concluded after (some (openFrame codec texts payload))).2 = some (.error e)) : e.kind ≠ .timedOut := by
  rw [concluded_told] at told
  exact openFrame_kind codec texts (Option.some.inj told)

theorem closed_fails (call : Call) :
    ∃ e, subscriptionNext codec texts none call = (none, some (.error e)) := by
  rw [subscriptionNext]
  cases deadline call.now call.timeoutMs with
  | error e => exact ⟨e, rfl⟩
  | ok until_ => exact ⟨_, rfl⟩

/-- An argument that is refused is no timeout. -/
theorem deadline_kind {now : ℕ} {timeoutMs : U64} {e : IoError} (refused : deadline now timeoutMs = .error e) :
    e.kind ≠ .timedOut := by
  rw [deadline] at refused
  split_ifs at refused
  all_goals
    obtain rfl := Except.error.inj refused
    exact nofun

theorem Holding.proper {left : List Frame} {s : Subscription} (holding : Holding left s) :
    Proper codec texts left s := by
  cases s with
  | none =>
    have fails := closed_fails codec texts
    refine ⟨(fun _ none => nomatch none), fun call _ e _ _ _ => ?_, fun _ => fails, (fun _ none => nomatch none),
      fun call snapshot told => ?_, (fun _ none => nomatch none)⟩
    · obtain ⟨_, same⟩ := fails call
      rw [same]
    · obtain ⟨_, same⟩ := fails call
      rw [same] at told
      cases told
  | some c =>
    obtain ⟨k, within, inside, rfl⟩ := holding c rfl
    have length : ((written left).take k).length = k := by rw [List.length_take, Nat.min_eq_left within]
    refine ⟨?_, ?_, nofun, ?_, ?_, ?_⟩
    · rintro _ ⟨⟩
      exact unread_past inside
    · intro call until_ e accepted told kind
      generalize received : (Channel.past (written left) k).receive codec texts until_ call.rounds = r
      obtain ⟨after, result⟩ := r
      rw [subscriptionNext_some codec texts accepted received] at told ⊢
      rw [concluded_closes told, if_neg kind]
    · rintro _ ⟨⟩ call e told kind
      cases accepted : deadline call.now call.timeoutMs with
      | error refused =>
        rw [subscriptionNext, accepted] at told
        obtain rfl := Except.error.inj (Option.some.inj told)
        exact absurd kind (deadline_kind accepted)
      | ok until_ =>
        obtain ⟨j, result, received, ⟨forward, inStream, _, _⟩, _⟩ | ⟨_, received⟩ :=
          receive_spec codec texts within inside call.rounds
        · rw [subscriptionNext_some codec texts accepted received] at told ⊢
          rw [concluded_closes told, if_pos kind]
          refine ⟨_, rfl, ?_, List.take_append_drop j _⟩
          exact List.take_prefix_take_left forward
        · rw [subscriptionNext_some codec texts accepted received] at told
          exact absurd kind (concluded_answered codec texts told)
    · intro call snapshot told
      cases accepted : deadline call.now call.timeoutMs with
      | error refused =>
        rw [subscriptionNext, accepted] at told
        cases told
      | ok until_ =>
        obtain ⟨j, result, received, ⟨_, _, _, unanswered⟩, _⟩ | ⟨_, received⟩ :=
          receive_spec codec texts within inside call.rounds
        · rw [subscriptionNext_some codec texts accepted received] at told
          have nothing := (concluded_unanswered (.past (written left) j) unanswered).1
          rw [told] at nothing
          cases nothing
        · rw [subscriptionNext_some codec texts accepted received] at told ⊢
          exact ⟨_, concluded_keeps told, rfl⟩
    · rintro _ ⟨⟩ f rest rfl small call until_ accepted patient enough
      have complete := complete_written rest small
      obtain ⟨_, _, _, _, counted⟩ | ⟨_, received⟩ := receive_spec codec texts within inside call.rounds
      · have reached := counted patient complete
        have ends : frameEnd (written (f :: rest)) = (frame f.payload).length := frameEnd_frame small _
        have had : (Channel.past (written (f :: rest)) k).incoming.length = k := length
        omega
      · rw [subscriptionNext_some codec texts accepted received, payload_written]
        exact concluded_told _ _

/-! ## Replies -/

/-- The answer of a call that got a reply. -/
def replied : Option (Except IoError Reply) → Option Reply
  | some (.ok reply) => some reply
  | some (.error _) | none => none

/-- Calls of `receive` itself, each until an instant of its own; it stays usable whatever it returns. -/
def receiver : Transducer Channel (ℕ × List Round) (Option (Except IoError Reply)) where
  step c call := c.receive codec texts call.1 call.2

theorem replied_unanswered {result : Option (Except IoError Reply)} (unanswered : Unanswered result) :
    replied result = none := by
  obtain rfl | ⟨e, rfl⟩ := unanswered <;> rfl

theorem receives_holding {frames : List Frame} {k : ℕ} (within : k ≤ (written frames).length)
    (inside : k ≤ frameEnd (written frames)) (calls : List (ℕ × List Round)) :
    ∃ n ≤ frames.length, ((receiver codec texts).outputs (.past (written frames) k) calls).filterMap replied =
        (frames.take n).filterMap (fun f => (openFrame codec texts f.payload).toOption) ∧
      ∃ j ≤ frameEnd (written (frames.drop n)),
        (receiver codec texts).run (.past (written frames) k) calls = .past (written (frames.drop n)) j := by
  induction calls generalizing frames k with
  | nil => exact ⟨0, Nat.zero_le _, rfl, k, inside, rfl⟩
  | cons call rest ih =>
    rw [Transducer.outputs, Transducer.run]
    obtain ⟨j, result, received, ⟨_, inStream, inFrame, unanswered⟩, _⟩ | ⟨complete, received⟩ :=
      receive_spec codec texts within inside call.2
    · have output : (receiver codec texts).output (.past (written frames) k) call = result :=
        congrArg Prod.snd received
      have next : (receiver codec texts).next (.past (written frames) k) call = .past (written frames) j :=
        congrArg Prod.fst received
      rw [output, next, List.filterMap_cons_none (replied_unanswered unanswered)]
      exact ih inStream inFrame
    · cases frames with
      | nil => exact absurd complete not_complete_nil
      | cons f later =>
        rw [answer, drop_frameEnd (small_of_complete complete), payload_written] at received
        have output : (receiver codec texts).output (.past (written (f :: later)) k) call =
            some (openFrame codec texts f.payload) := congrArg Prod.snd received
        have next : (receiver codec texts).next (.past (written (f :: later)) k) call =
            .past (written later) 0 := congrArg Prod.fst received
        obtain ⟨n, bounded, same, left⟩ := @ih later 0 (Nat.zero_le _) (Nat.zero_le _)
        refine ⟨n + 1, Nat.succ_le_succ bounded, ?_, ?_⟩
        · rw [output, List.take_succ_cons, List.filterMap_cons, List.filterMap_cons, next, same]
          cases openFrame codec texts f.payload <;> rfl
        · rw [next]
          exact left

/-! ## Every run -/

/-- Whatever frames the server writes, and however calls and the kernel cut them up: the snapshots of the
successful calls are the first of these frames, each once and in order, and the subscription is a
proper one for the others. The same holds of the replies of calls that receive on the channel itself. -/
theorem subscription_exact (frames : List Frame) :
    (∀ calls : List Call, ∃ n ≤ frames.length,
      (((machine codec texts).outputs (some ⟨written frames, []⟩) calls).filterMap success).map some =
          (frames.take n).map (delivered codec texts) ∧
        Proper codec texts (frames.drop n) ((machine codec texts).run (some ⟨written frames, []⟩) calls)) ∧
      ∀ calls : List (ℕ × List Round), ∃ n ≤ frames.length,
        ((receiver codec texts).outputs ⟨written frames, []⟩ calls).filterMap replied =
            (frames.take n).filterMap (fun f => (openFrame codec texts f.payload).toOption) ∧
          Unread (frames.drop n) ((receiver codec texts).run ⟨written frames, []⟩ calls) := by
  have start : Channel.mk (written frames) [] = .past (written frames) 0 := rfl
  rw [start]
  refine ⟨fun calls => ?_, fun calls => ?_⟩
  · have fresh : Holding frames (some (.past (written frames) 0)) :=
      holding_past frames (Nat.zero_le _) (Nat.zero_le _) (.inl rfl)
    obtain ⟨n, bounded, same, holding⟩ := calls_holding codec texts fresh calls
    exact ⟨n, bounded, same.symm, holding.proper codec texts⟩
  · obtain ⟨n, bounded, same, j, inside, after⟩ :=
      receives_holding codec texts (Nat.zero_le _) (Nat.zero_le _) calls
    refine ⟨n, bounded, same, ?_⟩
    rw [after]
    exact unread_past inside

end Subscriptions

/-! ## A call that receives nothing -/

def emptySnapshot : Frame := ⟨Reply.encode messagepack (.snapshot {}), by decide +kernel⟩

/-- A timeout of zero is refused before anything is received, and the next call is served. -/
theorem refused_timeout_keeps_open :
    (machine messagepack plainTexts).outputs (some ⟨written [emptySnapshot], []⟩)
        [⟨0, 0, []⟩, ⟨0, 1000, [⟨0, .ok 4096, .ok ()⟩, ⟨0, .ok 4096, .ok ()⟩, ⟨0, .ok 4096, .ok ()⟩]⟩] =
      [some (.error ⟨.invalidInput, "timeout_ms must be positive"⟩), some (.ok {})] := by
  decide +kernel

end Netd.Model.Channel
