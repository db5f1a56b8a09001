import Netd.Model.Control
import Netd.Proofs.Wire.Frames

/-! # Requests in pieces

A connection that is serviced over and over reads its stream in whatever pieces the kernel has at
hand. What comes of it is what decoding the whole stream at once gives, after exactly the octets of
the first frame.
-/

namespace Netd.Model.Control

open Wire

/-! ## A socket and its peer -/

/-- What the kernel says to a read: nothing yet, or some of what the peer sent, at most one octet more
than the number given. At the end of the stream there is nothing to hand over. -/
inductive Answer where
  | wouldBlock
  | interrupted
  | deliver (more : ℕ)
deriving DecidableEq

namespace Answer

def delivers : Answer → Bool
  | deliver _ => true
  | wouldBlock | interrupted => false

/-- A read from a socket with these octets unread. -/
def read (unread : Bytes) (capacity : ℕ) : Answer → Except ErrorKind Bytes
  | wouldBlock => .error .wouldBlock
  | interrupted => .error .interrupted
  | deliver more => .ok (unread.take (min (more + 1) capacity))

/-- The kernel, as a client in `Reading` meets it. -/
def kernel (unread : Bytes) (answer : Answer) : Syscall where
  read capacity := answer.read unread capacity
  write _ := .error .wouldBlock
  read_le := by
    intro capacity octets answered
    cases answer with
    | deliver more =>
      obtain rfl := Except.ok.inj answered
      rw [List.length_take]
      omega
    | wouldBlock => contradiction
    | interrupted => contradiction
  write_le := by
    intro octets taken answered
    contradiction

end Answer

section Servicing

variable {ε : Type} (codec : Msgpack ε) (texts : Texts ε)

/-- What decoding the whole stream of a peer at once gives. -/
def decodeStream (stream : Bytes) : Except (WireError ε) Wire.Request :=
  if stream.length < 4 then .error (.io .unexpectedEof)
  else if announced stream > maxMessageBytes then .error (.tooLarge (announced stream))
  else if stream.length < 4 + announced stream then .error (.io .unexpectedEof)
  else Wire.Request.decode codec ((stream.drop 4).take (announced stream))

/-- How many octets a client reads when it advances. -/
def Client.octetsRead (c : Client) (kernel : Syscall) : ℕ :=
  match c.state with
  | .writing .. => 0
  | .reading buf =>
    match kernel.read (readCount buf) with
    | .ok octets => octets.length
    | .error _ => 0

namespace Clients

/-- What a descriptor has read so far, while it is reading. -/
def buffer (s : Clients) (fd : ℕ) : Option Bytes :=
  (s.pending.lookup fd).bind fun client =>
    match client.state with
    | .reading buf => some buf
    | .writing .. => none

/-- How many octets a service reads. -/
def octetsRead (s : Clients) (fd now : ℕ) (kernel : Syscall) : ℕ :=
  match s.pending.lookup fd with
  | none => 0
  | some client => if client.deadline ≤ now then 0 else client.octetsRead kernel

/-- Service a descriptor over and over, at the given instants, until it no longer reads: the table,
what is left unread, and the request that came of it. -/
def serviced (fd : ℕ) : Clients → Bytes → List (Answer × ℕ) → Clients × Bytes × Option (Stream × Wire.Request)
  | s, unread, [] => (s, unread, none)
  | s, unread, (answer, now) :: rest =>
    let kernel := answer.kernel unread
    let (after, request) := s.service codec texts fd now kernel
    let unread := unread.drop (s.octetsRead fd now kernel)
    if request.isNone && (after.buffer fd).isSome then serviced fd after unread rest
    else (after, unread, request)

/-- How a client of the table is answered at an instant: its request is handed over, or its error is
written back. -/
def answered (s : Clients) (client : Client) (now : ℕ) :
    Except (WireError ε) Wire.Request → Clients × Option (Stream × Wire.Request)
  | .ok request => (⟨s.pending.erase client.stream.fd⟩, some (client.stream, request))
  | .error e =>
    (⟨s.pending.insert client.stream.fd (client.reply codec texts (.error (e.display texts)) now)⟩, none)

end Clients

/-! ## One service -/

/-- A prefix of the stream within its first frame is judged as the whole stream, at the end of the
frame and not before. -/
theorem judge_take {stream : Bytes} {k : ℕ} (within : k ≤ stream.length) (inside : k ≤ frameEnd stream) :
    Client.judge codec (stream.take k) =
      if k = frameEnd stream then .request (decodeStream codec stream) else .pending := by
  have length : (stream.take k).length = k := by rw [List.length_take, Nat.min_eq_left within]
  rw [Client.judge, length]
  by_cases known : 4 ≤ k
  · have long : ¬stream.length < 4 := by omega
    rw [if_pos known, announced_take within known]
    simp only [frameEnd, if_neg long] at inside ⊢
    by_cases large : announced stream > maxMessageBytes
    · simp only [if_pos large] at inside ⊢
      rw [if_pos (by omega), decodeStream, if_neg long, if_pos large]
    · simp only [if_neg large] at inside ⊢
      split_ifs with complete
      · rw [decodeStream, if_neg long, if_neg large, if_neg (by omega), List.drop_take, complete]
        congr 3
        omega
      · rfl
  · have header := four_le_frameEnd stream
    rw [if_neg known, if_neg (by omega)]

/-- A stream that ends within its first frame ends too early. -/
theorem decodeStream_short {stream : Bytes} (short : stream.length < frameEnd stream) :
    decodeStream codec stream = .error (.io .unexpectedEof) := by
  rw [decodeStream]
  rw [frameEnd] at short
  split_ifs at short ⊢ with header large
  · rfl
  · omega
  · rfl

/-- Within the first frame the reader asks for no more than the frame lacks, and for something. -/
theorem readTarget_take {stream : Bytes} {k : ℕ} (within : k ≤ stream.length) (before : k < frameEnd stream) :
    k < readTarget (stream.take k) ∧ readTarget (stream.take k) ≤ frameEnd stream := by
  have same : readTarget (stream.take k) = framing.target (stream.take k) := by
    have length : (stream.take k).length = k := by rw [List.length_take, Nat.min_eq_left within]
    rw [target_framing, readTarget, frameEnd, length]
    split_ifs with short large
    · rfl
    · rw [frameEnd, announced_take within (by omega)] at *
      rw [if_pos large] at before
      split_ifs at before <;> omega
    · rfl
  rw [same]
  exact ⟨framing.lt_target_take within before, framing.target_take_le within⟩

namespace Clients

/-- The table with a connection that has read the first `k` octets of its stream. -/
def reading (s : Clients) (client : Client) (stream : Bytes) (k : ℕ) : Clients :=
  ⟨s.pending.insert client.stream.fd { client with state := .reading (stream.take k) }⟩

variable (s : Clients) (client : Client) (stream : Bytes) (k : ℕ)

theorem reading_lookup : (s.reading client stream k).pending.lookup client.stream.fd =
    some { client with state := .reading (stream.take k) } := s.pending.lookup_insert_self _ _

theorem reading_buffer : (s.reading client stream k).buffer client.stream.fd = some (stream.take k) := by
  rw [buffer, reading_lookup]
  rfl

theorem octetsRead_reading {now : ℕ} (inTime : now < client.deadline) (kernel : Syscall) :
    (s.reading client stream k).octetsRead client.stream.fd now kernel =
      Client.octetsRead { client with state := .reading (stream.take k) } kernel := by
  rw [octetsRead, reading_lookup]
  exact if_neg (Nat.not_le.mpr inTime)

/-- What a service makes of a client's progress. -/
def settle (client : Client) (now : ℕ) : Progress ε → Clients × Option (Stream × Wire.Request)
  | .request result => s.answered codec texts client now result
  | .closed => (⟨s.pending.erase client.stream.fd⟩, none)
  | .pending => (⟨s.pending.insert client.stream.fd client⟩, none)

/-- A service in time carries out what the client's progress calls for. -/
theorem service_reading {now : ℕ} (inTime : now < client.deadline) {kernel : Syscall} {after : Client}
    {progress : Progress ε}
    (advanced : Client.advance codec { client with state := .reading (stream.take k) } kernel = (after, progress))
    (same : after.stream = client.stream) :
    (s.reading client stream k).service codec texts client.stream.fd now kernel =
      s.settle codec texts after now progress := by
  have erased : (s.reading client stream k).pending.erase client.stream.fd =
      s.pending.erase client.stream.fd := by rw [reading, SortedMap.erase_insert]
  rw [service, reading_lookup]
  simp only [if_neg (Nat.not_le.mpr inTime), advanced, erased]
  cases progress with
  | request result =>
    cases result <;> simp only [settle, answered, same, SortedMap.insert_erase]
  | closed => simp only [settle, same]
  | pending => simp only [settle, same, SortedMap.insert_erase]

/-- Nothing to read leaves everything as it was. -/
theorem service_quiet {now : ℕ} (inTime : now < client.deadline) {answer : Answer}
    (quiet : answer.delivers = false) (unread : Bytes) :
    (s.reading client stream k).service codec texts client.stream.fd now (answer.kernel unread) =
        (s.reading client stream k, none) ∧
      (s.reading client stream k).octetsRead client.stream.fd now (answer.kernel unread) = 0 := by
  have advanced : Client.advance codec { client with state := .reading (stream.take k) }
      (answer.kernel unread) = ({ client with state := .reading (stream.take k) }, .pending) := by
    cases answer with
    | wouldBlock => rfl
    | interrupted => rfl
    | deliver more => contradiction
  refine ⟨service_reading codec texts s client stream k inTime advanced rfl, ?_⟩
  rw [octetsRead_reading s client stream k inTime]
  cases answer with
  | wouldBlock => rfl
  | interrupted => rfl
  | deliver more => contradiction

/-- How much a delivery hands over. -/
def handed (stream : Bytes) (k more : ℕ) : ℕ :=
  min (min (more + 1) (readCount (stream.take k))) (stream.length - k)

theorem length_handed (stream : Bytes) (k more : ℕ) :
    ((stream.drop k).take (min (more + 1) (readCount (stream.take k)))).length = handed stream k more := by
  rw [List.length_take, List.length_drop, handed]

/-- A delivery moves the reader on within the frame, or finds the end of the stream. -/
theorem handed_bounds {stream : Bytes} {k : ℕ} (within : k ≤ stream.length) (before : k < frameEnd stream)
    (more : ℕ) : k + handed stream k more ≤ stream.length ∧ k + handed stream k more ≤ frameEnd stream ∧
      (handed stream k more = 0 ↔ k = stream.length) := by
  obtain ⟨some, enough⟩ := readTarget_take within before
  have length : (stream.take k).length = k := by rw [List.length_take, Nat.min_eq_left within]
  have chunk : 0 < ioChunk := by decide
  rw [handed, readCount, length]
  omega

/-- What a delivery leaves: the connection still reading, further on, or the whole stream's answer. -/
theorem service_delivered {now : ℕ} (inTime : now < client.deadline) {stream : Bytes} {k : ℕ}
    (within : k ≤ stream.length) (before : k < frameEnd stream) (more : ℕ) :
    (s.reading client stream k).octetsRead client.stream.fd now
          ((Answer.deliver more).kernel (stream.drop k)) = handed stream k more ∧
      (s.reading client stream k).service codec texts client.stream.fd now
          ((Answer.deliver more).kernel (stream.drop k)) =
        if k = stream.length ∨ k + handed stream k more = frameEnd stream then
          s.answered codec texts client now (decodeStream codec stream)
        else (s.reading client stream (k + handed stream k more), none) := by
  obtain ⟨inStream, inFrame, empty⟩ := handed_bounds within before more
  have length := length_handed stream k more
  have answer : ((Answer.deliver more).kernel (stream.drop k)).read (readCount (stream.take k)) =
      .ok ((stream.drop k).take (min (more + 1) (readCount (stream.take k)))) := rfl
  refine ⟨?_, ?_⟩
  · rw [octetsRead_reading s client stream k inTime]
    simp only [Client.octetsRead, answer, length]
  cases octets : (stream.drop k).take (min (more + 1) (readCount (stream.take k))) with
  | nil =>
    -- Nothing is handed over only where the stream has ended, short of its frame.
    have ended : k = stream.length := empty.mp (by rw [← length, octets]; rfl)
    rw [octets] at answer
    rw [if_pos (.inl ended), decodeStream_short codec (ended ▸ before)]
    have advanced : Client.advance codec { client with state := .reading (stream.take k) }
        ((Answer.deliver more).kernel (stream.drop k)) =
        ({ client with state := .reading (stream.take k) }, .request (.error (.io .unexpectedEof))) := by
      simp only [Client.advance, answer]
    exact service_reading codec texts s client stream k inTime advanced rfl
  | cons first rest =>
    have moved : k ≠ stream.length := fun ended => by
      rw [empty.mpr ended, octets] at length
      contradiction
    have joined : stream.take k ++ (first :: rest) = stream.take (k + handed stream k more) := by
      rw [← octets, List.take_add, handed, ← List.length_drop, ← List.take_eq_take_min]
    rw [octets] at answer
    have advanced : Client.advance codec { client with state := .reading (stream.take k) }
        ((Answer.deliver more).kernel (stream.drop k)) =
        ({ client with state := .reading (stream.take (k + handed stream k more)) },
          Client.judge codec (stream.take (k + handed stream k more))) := by
      simp only [Client.advance, answer, joined]
    rw [judge_take codec inStream inFrame] at advanced
    rw [service_reading codec texts s client stream k inTime advanced rfl]
    by_cases complete : k + handed stream k more = frameEnd stream
    · rw [if_pos complete, if_pos (.inr complete)]
      cases decodeStream codec stream <;> rfl
    · rw [if_neg complete, if_neg (not_or.mpr ⟨moved, complete⟩)]
      rfl

/-! ## Over and over -/

/-- A service that leaves the connection reading is followed by the next. -/
theorem serviced_reading {now j : ℕ} {answer : Answer} {unread : Bytes} (rest : List (Answer × ℕ))
    (left : (s.reading client stream k).service codec texts client.stream.fd now (answer.kernel unread) =
      (s.reading client stream j, none)) :
    serviced codec texts client.stream.fd (s.reading client stream k) unread ((answer, now) :: rest) =
      serviced codec texts client.stream.fd (s.reading client stream j)
        (unread.drop ((s.reading client stream k).octetsRead client.stream.fd now (answer.kernel unread))) rest := by
  rw [serviced]
  simp only [left, reading_buffer]
  rfl

/-- A connection that was answered is not reading. -/
theorem answered_buffer (now : ℕ) (result : Except (WireError ε) Wire.Request) :
    ((s.answered codec texts client now result).2.isNone &&
      ((s.answered codec texts client now result).1.buffer client.stream.fd).isSome) = false := by
  cases result with
  | ok request => rfl
  | error e =>
    rw [answered, buffer, SortedMap.lookup_insert_self]
    rfl

theorem serviced_answered {now : ℕ} {answer : Answer} {unread : Bytes} (rest : List (Answer × ℕ))
    {result : Except (WireError ε) Wire.Request}
    (left : (s.reading client stream k).service codec texts client.stream.fd now (answer.kernel unread) =
      s.answered codec texts client now result) :
    serviced codec texts client.stream.fd (s.reading client stream k) unread ((answer, now) :: rest) =
      ((s.answered codec texts client now result).1,
        unread.drop ((s.reading client stream k).octetsRead client.stream.fd now (answer.kernel unread)),
        (s.answered codec texts client now result).2) := by
  rw [serviced]
  simp only [left, answered_buffer, Bool.false_eq_true, ↓reduceIte]

/-- A service at or after the deadline drops the connection without reading. -/
theorem serviced_expired {now : ℕ} (late : client.deadline ≤ now) (answer : Answer) (unread : Bytes)
    (rest : List (Answer × ℕ)) :
    serviced codec texts client.stream.fd (s.reading client stream k) unread ((answer, now) :: rest) =
      (⟨s.pending.erase client.stream.fd⟩, unread, none) := by
  have dropped : (s.reading client stream k).service codec texts client.stream.fd now (answer.kernel unread) =
      (⟨s.pending.erase client.stream.fd⟩, none) := by
    rw [service, reading_lookup, reading]
    simp only [SortedMap.erase_insert, if_pos late]
  have nothing : (s.reading client stream k).octetsRead client.stream.fd now (answer.kernel unread) = 0 := by
    rw [octetsRead, reading_lookup]
    exact if_pos late
  have gone : buffer ⟨s.pending.erase client.stream.fd⟩ client.stream.fd = none := by
    rw [buffer, SortedMap.lookup_erase, if_pos rfl]
    rfl
  rw [serviced]
  simp only [dropped, nothing, gone, List.drop_zero]
  rfl

/-- How often the kernel had something to say, be it the end of the stream. -/
def deliveries (schedule : List (Answer × ℕ)) : ℕ := schedule.countP fun entry => entry.1.delivers

/-- The connection has read `k` octets, less than its first frame, asks for more of that frame only,
and was handed at least one octet in every delivery. -/
structure Waiting (stream : Bytes) (schedule : List (Answer × ℕ)) (k : ℕ) : Prop where
  within : k ≤ stream.length
  before : k < frameEnd stream
  wants : (stream.take k).length < readTarget (stream.take k)
  inside : readTarget (stream.take k) ≤ frameEnd stream
  handed : deliveries schedule ≤ k

/-- The three ways a schedule can leave a connection that has read `k` octets: further on, answered as
the whole stream decodes, or out of time. -/
def Served (k : ℕ) (schedule : List (Answer × ℕ)) (left : Clients × Bytes × Option (Stream × Wire.Request)) : Prop :=
  (∃ j, k + deliveries schedule ≤ j ∧ j ≤ stream.length ∧ j < frameEnd stream ∧
      left = (s.reading client stream j, stream.drop j, none)) ∨
    (∃ entry ∈ schedule, entry.2 < client.deadline ∧
      left = ((s.answered codec texts client entry.2 (decodeStream codec stream)).1,
        stream.drop (min stream.length (frameEnd stream)),
        (s.answered codec texts client entry.2 (decodeStream codec stream)).2)) ∨
    ∃ entry ∈ schedule, client.deadline ≤ entry.2 ∧ ∃ j, j < frameEnd stream ∧
      left = (⟨s.pending.erase client.stream.fd⟩, stream.drop j, none)

theorem deliveries_cons (answer : Answer) (now : ℕ) (rest : List (Answer × ℕ)) :
    deliveries ((answer, now) :: rest) = deliveries rest + if answer.delivers then 1 else 0 := by
  rw [deliveries, List.countP_cons]
  rfl

/-- What the rest of a schedule does from a later octet, all of it does. -/
theorem Served.cons {stream : Bytes} {k j now : ℕ} {answer : Answer} {rest : List (Answer × ℕ)}
    {left : Clients × Bytes × Option (Stream × Wire.Request)}
    (served : Served codec texts s client stream j rest left)
    (moved : k + (if answer.delivers then 1 else 0) ≤ j) :
    Served codec texts s client stream k ((answer, now) :: rest) left := by
  refine served.imp ?_ (Or.imp ?_ ?_)
  · rintro ⟨i, far, bounds⟩
    refine ⟨i, ?_, bounds⟩
    rw [deliveries_cons]
    omega
  · rintro ⟨entry, member, found⟩
    exact ⟨entry, List.mem_cons_of_mem _ member, found⟩
  · rintro ⟨entry, member, found⟩
    exact ⟨entry, List.mem_cons_of_mem _ member, found⟩

theorem serviced_from {stream : Bytes} (schedule : List (Answer × ℕ)) {k : ℕ} (within : k ≤ stream.length)
    (before : k < frameEnd stream) :
    Served codec texts s client stream k schedule
      (serviced codec texts client.stream.fd (s.reading client stream k) (stream.drop k) schedule) := by
  induction schedule generalizing k with
  | nil => exact .inl ⟨k, le_rfl, within, before, rfl⟩
  | cons entry rest ih =>
    obtain ⟨answer, now⟩ := entry
    by_cases late : client.deadline ≤ now
    · refine .inr (.inr ⟨(answer, now), List.mem_cons_self, late, k, before, ?_⟩)
      exact serviced_expired codec texts s client stream k late answer _ rest
    have inTime : now < client.deadline := Nat.not_le.mp late
    cases delivers : answer.delivers with
    | false =>
      obtain ⟨same, nothing⟩ := service_quiet codec texts s client stream k inTime delivers (stream.drop k)
      rw [serviced_reading codec texts s client stream k rest same, nothing, List.drop_zero]
      apply (ih within before).cons
      rw [delivers]
      exact le_rfl
    | true =>
      cases answer with
      | wouldBlock => contradiction
      | interrupted => contradiction
      | deliver more =>
        obtain ⟨read, served⟩ := service_delivered codec texts s client inTime within before more
        obtain ⟨inStream, inFrame, empty⟩ := handed_bounds within before more
        by_cases done : k = stream.length ∨ k + handed stream k more = frameEnd stream
        · rw [if_pos done] at served
          refine .inr (.inl ⟨(.deliver more, now), List.mem_cons_self, inTime, ?_⟩)
          refine (serviced_answered codec texts s client stream k rest served).trans ?_
          have reached : k + handed stream k more = min stream.length (frameEnd stream) := by omega
          rw [read, List.drop_drop, reached]
        · rw [if_neg done] at served
          obtain ⟨moved, short⟩ := not_or.mp done
          have some : handed stream k more ≠ 0 := fun none => moved (empty.mp none)
          rw [serviced_reading codec texts s client stream k rest served, read, List.drop_drop]
          apply (ih inStream (by omega)).cons
          rw [if_pos delivers]
          omega

/-- However the kernel cuts a stream into pieces and however long it makes the daemon wait, a
connection that was just accepted is still reading its first frame, was answered as the whole stream
decodes, after exactly the octets of that frame, or ran out of time. -/
theorem chunking_independent (conn : Stream) (accepted : ℕ) (stream : Bytes) (schedule : List (Answer × ℕ)) :
    let client : Client := ⟨conn, accepted + ioTimeout, .reading []⟩
    let left := serviced codec texts conn.fd (s.add conn accepted) stream schedule
    (∃ k, Waiting stream schedule k ∧ left = (s.reading client stream k, stream.drop k, none)) ∨
      (∃ entry ∈ schedule, entry.2 < client.deadline ∧
        left = ((s.answered codec texts client entry.2 (decodeStream codec stream)).1,
          stream.drop (min stream.length (frameEnd stream)),
          (s.answered codec texts client entry.2 (decodeStream codec stream)).2)) ∨
      ∃ entry ∈ schedule, client.deadline ≤ entry.2 ∧ ∃ k, k < frameEnd stream ∧
        left = (⟨s.pending.erase conn.fd⟩, stream.drop k, none) := by
  intro client
  have header : 0 < frameEnd stream := Nat.lt_of_lt_of_le (by decide) (four_le_frameEnd stream)
  refine (serviced_from codec texts s client schedule (Nat.zero_le _) header).imp ?_ id
  rintro ⟨k, counted, within, before, same⟩
  obtain ⟨wants, inside⟩ := readTarget_take within before
  refine ⟨k, ⟨within, before, ?_, inside, by omega⟩, same⟩
  rwa [List.length_take, Nat.min_eq_left within]

end Clients

end Servicing

end Netd.Model.Control
