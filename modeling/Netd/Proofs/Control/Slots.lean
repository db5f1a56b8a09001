import Netd.Machine.Transducer
import Netd.Model.Control

/-! # Control slots are bounded

Every connection that was accepted is followed with a record of its life: when it was accepted, how
many requests of it were handed to the daemon, when it began to write and what, and what the kernel
took of that. The table bounds how many there are at once, and the record bounds what each of them
can do.
-/

namespace Netd.Model.Control

open Wire

section Slots

variable {ε : Type} (codec : Msgpack ε) (texts : Texts ε)

/-! ## What one service does -/

/-- What the kernel takes when a client advances. -/
def Client.written (c : Client) (kernel : Syscall) : Bytes :=
  match c.state with
  | .reading _ => []
  | .writing frame sent =>
    match kernel.write (writeChunk frame sent) with
    | .ok taken => (writeChunk frame sent).take taken
    | .error _ => []

/-- The frame a reply is written as. -/
def replyFrame (reply : Reply) : Bytes :=
  match (Client.reply codec texts ⟨⟨0, 0⟩, 0, .reading []⟩ reply 0).state with
  | .reading _ => []
  | .writing frame _ => frame

theorem reply_eq (c : Client) (reply : Reply) (now : ℕ) :
    c.reply codec texts reply now =
      { c with
        state := .writing (replyFrame codec texts reply) 0
        deadline := now + ioTimeout } := rfl

/-- A frame that is written is the frame of a reply that was encoded. -/
theorem replyFrame_encoded (reply : Reply) :
    ∃ written : Reply, replyFrame codec texts reply = frame (written.encode codec) := by
  by_cases large : (reply.encode codec).length > maxMessageBytes
  · refine ⟨.error ((WireError.tooLarge (reply.encode codec).length).display texts), ?_⟩
    simp only [replyFrame, Client.reply, if_pos large]
  · refine ⟨reply, ?_⟩
    simp only [replyFrame, Client.reply, if_neg large]

/-- Whatever the kernel takes of a chunk comes next in the frame. -/
theorem take_append_writeChunk {frame : Bytes} {sent taken : ℕ} (within : taken ≤ (writeChunk frame sent).length) :
    frame.take sent ++ (writeChunk frame sent).take taken = frame.take (sent + taken) := by
  rw [writeChunk, List.length_drop, List.length_take] at within
  rw [writeChunk, List.take_drop, List.take_take, List.take_add]
  congr 1
  rw [List.drop_take]
  congr 1
  omega

/-- A client that reads goes on reading, or is done with it. -/
theorem advance_reading {c : Client} {buf : Bytes} (state : c.state = .reading buf) (kernel : Syscall) :
    c.written kernel = [] ∧ ∃ more, (c.advance codec kernel).1 = { c with state := .reading more } := by
  refine ⟨by rw [Client.written, state], ?_⟩
  rw [Client.advance, state]
  dsimp only
  split
  · exact ⟨buf, by rw [← state]⟩
  · exact ⟨_, rfl⟩
  all_goals exact ⟨buf, by rw [← state]⟩

/-- A client that writes offers what comes next of its frame, and asks for nothing. -/
theorem advance_writing {c : Client} {frame : Bytes} {sent : ℕ} (state : c.state = .writing frame sent)
    (kernel : Syscall) :
    (∃ taken, taken ≤ (writeChunk frame sent).length ∧
        c.written kernel = (writeChunk frame sent).take taken) ∧
      ((c.advance codec kernel).2 = .closed ∨
        ∃ taken, taken ≤ (writeChunk frame sent).length ∧
          c.written kernel = (writeChunk frame sent).take taken ∧
          c.advance codec kernel = ({ c with state := .writing frame (sent + taken) }, .pending)) := by
  rw [Client.written, Client.advance, state]
  dsimp only
  cases answer : kernel.write (writeChunk frame sent) with
  | ok taken =>
    have within := kernel.write_le answer
    refine ⟨⟨taken, within, rfl⟩, ?_⟩
    cases taken with
    | zero => exact .inl rfl
    | succ n =>
      by_cases complete : sent + (n + 1) = frame.length
      · exact .inl (if_pos complete)
      · exact .inr ⟨n + 1, within, rfl, congrArg _ (if_neg complete)⟩
  | error kind =>
    refine ⟨⟨0, Nat.zero_le _, rfl⟩, ?_⟩
    have same : c = { c with state := .writing frame (sent + 0) } := by rw [Nat.add_zero, ← state]
    cases kind with
    | wouldBlock => exact .inr ⟨0, Nat.zero_le _, rfl, by rw [← same]⟩
    | interrupted => exact .inr ⟨0, Nat.zero_le _, rfl, by rw [← same]⟩
    | unexpectedEof => exact .inl rfl
    | timedOut => exact .inl rfl
    | invalidInput => exact .inl rfl
    | invalidData => exact .inl rfl
    | notConnected => exact .inl rfl
    | other => exact .inl rfl

/-! ## Lives -/

/-- What became of a connection: when it was accepted, how many of its requests were handed over, when
it turned to writing and to which frame, and what was written. -/
structure Life where
  accepted : ℕ
  requests : ℕ := 0
  turns : List (ℕ × Bytes) := []
  written : Bytes := []

/-- The frame a state began to write, where the one before was still reading. -/
def turned (before : State) (after : Option State) : Option Bytes :=
  match before, after with
  | .reading _, some (.writing frame _) => some frame
  | _, _ => none

/-- A server with a record of every connection it ever accepted. -/
structure Recorded where
  server : Server
  lives : ℕ → Life

namespace Recorded

def init : Recorded := ⟨.init, fun _ => { accepted := 0 }⟩

/-- The life of a connection after its descriptor was found ready: a request was handed over if the
table gave one up, and an instant is that of the reply or of the service. -/
def lived (s : Server) (slot : Server.Slot) (client : Client) (life : Life) : Life :=
  let requested := (s.clients.service codec texts slot.fd slot.now slot.kernel).2.isSome
  let after := (s.serviceSlot codec texts slot).clients.pending.lookup slot.fd
  let frame := turned client.state (after.map fun c => c.state)
  { accepted := life.accepted
    requests := life.requests + if requested then 1 else 0
    turns := life.turns ++ (frame.map fun octets => (if requested then slot.later else slot.now, octets)).toList
    written := life.written ++ if client.deadline ≤ slot.now then [] else client.written slot.kernel }

def step (r : Recorded) (op : Server.Op) : Recorded where
  server := r.server.step codec texts op
  lives :=
    match op with
    | .expire _ => r.lives
    | .slot slot =>
      match r.server.clients.pending.lookup slot.fd with
      | none => r.lives
      | some client =>
        Function.update r.lives client.stream.connection
          (lived codec texts r.server slot client (r.lives client.stream.connection))
    | .accept now answers => fun connection =>
      if r.server.accepted ≤ connection ∧ connection < (r.server.accept now answers).accepted then
        { accepted := now }
      else r.lives connection

end Recorded

/-- The record of a connection that is in the table agrees with its client. -/
def Agrees (life : Life) (client : Client) : Prop :=
  match client.state with
  | .reading _ => life.requests = 0 ∧ life.turns = [] ∧ client.deadline = life.accepted + ioTimeout
  | .writing frame sent => ∃ instant, life.turns = [(instant, frame)] ∧
      client.deadline = instant + ioTimeout ∧ life.written = frame.take sent

/-- What a connection may have done. -/
structure Modest (life : Life) : Prop where
  requests : life.requests ≤ 1
  turns : life.turns.length ≤ 1
  frames : ∀ turn ∈ life.turns, ∃ reply : Reply, turn.2 = frame (reply.encode codec)
  written : life.written <+: (life.turns.map Prod.snd).flatten

/-- What holds between operations. -/
structure Bounded (r : Recorded) : Prop where
  few : r.server.clients.pending.entries.length ≤ maxClients
  modest : ∀ connection, Modest codec (r.lives connection)
  keyed : ∀ fd client, r.server.clients.pending.lookup fd = some client → client.stream.fd = fd
  known : ∀ fd client, r.server.clients.pending.lookup fd = some client →
    client.stream.connection < r.server.accepted
  apart : ∀ fd other client second, r.server.clients.pending.lookup fd = some client →
    r.server.clients.pending.lookup other = some second →
      client.stream.connection = second.stream.connection → fd = other
  agrees : ∀ fd client, r.server.clients.pending.lookup fd = some client →
    Agrees (r.lives client.stream.connection) client

/-! ## One service, by what came of it -/

section Service

variable {s : Clients} {fd now : ℕ} {kernel : Syscall} {client after : Client}
  (found : s.pending.lookup fd = some client)

include found

theorem service_late (late : client.deadline ≤ now) :
    s.service codec texts fd now kernel = (⟨s.pending.erase fd⟩, none) := by
  rw [Clients.service, found]
  exact if_pos late

variable (inTime : ¬client.deadline ≤ now)

include inTime

theorem service_request {request : Wire.Request}
    (advanced : client.advance codec kernel = (after, .request (.ok request))) :
    s.service codec texts fd now kernel = (⟨s.pending.erase fd⟩, some (after.stream, request)) := by
  rw [Clients.service, found]
  simp only [if_neg inTime, advanced]

theorem service_error {e : WireError ε} (advanced : client.advance codec kernel = (after, .request (.error e))) :
    s.service codec texts fd now kernel =
      (⟨s.pending.insert fd (after.reply codec texts (.error (e.display texts)) now)⟩, none) := by
  rw [Clients.service, found]
  simp only [if_neg inTime, advanced, SortedMap.insert_erase]

theorem service_closed (advanced : client.advance codec kernel = (after, .closed)) :
    s.service codec texts fd now kernel = (⟨s.pending.erase fd⟩, none) := by
  rw [Clients.service, found]
  simp only [if_neg inTime, advanced]

theorem service_pending (advanced : client.advance codec kernel = (after, .pending)) :
    s.service codec texts fd now kernel = (⟨s.pending.insert fd after⟩, none) := by
  rw [Clients.service, found]
  simp only [if_neg inTime, advanced, SortedMap.insert_erase]

end Service

/-- What can come of a slot whose descriptor is in the table: the connection goes, stays as it was,
or turns to a reply. -/
inductive Came (s : Server) (slot : Server.Slot) (client : Client) : Clients → Bool → Prop
  | gone (requested : Bool) (reading : requested = true → ∃ buf, client.state = .reading buf) :
    Came s slot client ⟨s.clients.pending.erase slot.fd⟩ requested
  | reads {buf : Bytes} (more : Bytes) (state : client.state = .reading buf) :
    Came s slot client ⟨s.clients.pending.insert slot.fd { client with state := .reading more }⟩ false
  | writes {frame : Bytes} {sent : ℕ} (taken : ℕ) (inTime : ¬client.deadline ≤ slot.now)
      (state : client.state = .writing frame sent) (within : taken ≤ (writeChunk frame sent).length)
      (wrote : client.written slot.kernel = (writeChunk frame sent).take taken) :
    Came s slot client
      ⟨s.clients.pending.insert slot.fd { client with state := .writing frame (sent + taken) }⟩ false
  | turns {buf : Bytes} (reply : Reply) (requested : Bool) (state : client.state = .reading buf) :
    Came s slot client
      ⟨s.clients.pending.insert slot.fd
        (client.reply codec texts reply (if requested then slot.later else slot.now))⟩ requested

/-- A request that was handed over leaves the table before its reply comes back to it. -/
theorem serviceSlot_of_request {s : Server} {slot : Server.Slot} {client : Client} {request : Wire.Request}
    (keyed : client.stream.fd = slot.fd)
    (served : s.clients.service codec texts slot.fd slot.now slot.kernel =
      (⟨s.clients.pending.erase slot.fd⟩, some (client.stream, request)))
    {buf : Bytes} (state : client.state = .reading buf) :
    Came codec texts s slot client (s.serviceSlot codec texts slot).clients true := by
  rw [Server.serviceSlot, served]
  dsimp only
  cases slot.handle client.stream request with
  | none => exact .gone true fun _ => ⟨buf, state⟩
  | some reply =>
    have same : Clients.reply codec texts ⟨s.clients.pending.erase slot.fd⟩ client.stream reply slot.later =
        ⟨s.clients.pending.insert slot.fd (client.reply codec texts reply slot.later)⟩ := by
      rw [Clients.reply, keyed, SortedMap.insert_erase]
      rfl
    dsimp only
    rw [same]
    exact .turns reply true state

theorem serviceSlot_came {s : Server} {slot : Server.Slot} {client : Client}
    (found : s.clients.pending.lookup slot.fd = some client) (keyed : client.stream.fd = slot.fd) :
    Came codec texts s slot client (s.serviceSlot codec texts slot).clients
      (s.clients.service codec texts slot.fd slot.now slot.kernel).2.isSome := by
  have quiet {clients : Clients}
      (served : s.clients.service codec texts slot.fd slot.now slot.kernel = (clients, none)) :
      (s.serviceSlot codec texts slot).clients = clients ∧
        (s.clients.service codec texts slot.fd slot.now slot.kernel).2.isSome = false := by
    rw [Server.serviceSlot, served]
    exact ⟨rfl, rfl⟩
  by_cases late : client.deadline ≤ slot.now
  · obtain ⟨same, silent⟩ := quiet (service_late codec texts found late)
    rw [same, silent]
    exact .gone false nofun
  cases state : client.state with
  | reading buf =>
    obtain ⟨_, more, read⟩ := advance_reading codec state slot.kernel
    generalize advanced : client.advance codec slot.kernel = advance at read
    obtain ⟨after, progress⟩ := advance
    obtain rfl : after = { client with state := .reading more } := read
    cases progress with
    | pending =>
      obtain ⟨same, silent⟩ := quiet (service_pending codec texts found late advanced)
      rw [same, silent]
      exact .reads more state
    | closed =>
      obtain ⟨same, silent⟩ := quiet (service_closed codec texts found late advanced)
      rw [same, silent]
      exact .gone false nofun
    | request result =>
      cases result with
      | ok request =>
        have served := service_request codec texts found late advanced
        have came := serviceSlot_of_request codec texts keyed served state
        rw [served]
        exact came
      | error e =>
        obtain ⟨same, silent⟩ := quiet (service_error codec texts found late advanced)
        rw [same, silent]
        exact .turns (.error (e.display texts)) false state
  | writing frame sent =>
    obtain ⟨_, done | ⟨taken, within, wrote, advanced⟩⟩ := advance_writing codec state slot.kernel
    · obtain ⟨same, silent⟩ := quiet (service_closed codec texts found late
        (show client.advance codec slot.kernel = (_, .closed) from Prod.ext rfl done))
      rw [same, silent]
      exact .gone false nofun
    · obtain ⟨same, silent⟩ := quiet (service_pending codec texts found late advanced)
      rw [same, silent]
      exact .writes taken late state within wrote

/-! ## Slots keep the bounds -/

variable {codec texts}

theorem Agrees.reading {life : Life} {client : Client} (agrees : Agrees life client) {buf : Bytes}
    (state : client.state = .reading buf) :
    life.requests = 0 ∧ life.turns = [] ∧ client.deadline = life.accepted + ioTimeout := by
  rw [Agrees, state] at agrees
  exact agrees

theorem Agrees.writing {life : Life} {client : Client} (agrees : Agrees life client) {frame : Bytes} {sent : ℕ}
    (state : client.state = .writing frame sent) : ∃ instant, life.turns = [(instant, frame)] ∧
      client.deadline = instant + ioTimeout ∧ life.written = frame.take sent := by
  rw [Agrees, state] at agrees
  exact agrees

/-- Nothing was written before the turn. -/
theorem Modest.unwritten {life : Life} (modest : Modest codec life) (turns : life.turns = []) :
    life.written = [] := by
  have within := modest.written
  rw [turns] at within
  exact List.prefix_nil.mp within

/-- What a service writes continues the one frame of its connection. -/
theorem Modest.continued {life : Life} {client : Client} (modest : Modest codec life)
    (agrees : Agrees life client) (kernel : Syscall) :
    life.written ++ client.written kernel <+: (life.turns.map Prod.snd).flatten := by
  cases state : client.state with
  | reading buf =>
    rw [Client.written, state, List.append_nil]
    exact modest.written
  | writing frame sent =>
    obtain ⟨instant, turns, _, written⟩ := agrees.writing state
    obtain ⟨⟨taken, within, wrote⟩, _⟩ := advance_writing codec state kernel
    rw [turns, written, wrote, take_append_writeChunk within]
    simpa using List.take_prefix (sent + taken) frame

/-- One connection of the table moved on, and the rest of the table stayed. -/
theorem Bounded.update {r : Recorded} (bounded : Bounded codec r) {fd : ℕ} {client : Client}
    (found : r.server.clients.pending.lookup fd = some client) {table : Clients} {life : Life}
    (few : table.pending.entries.length ≤ maxClients) (modest : Modest codec life)
    (elsewhere : ∀ other, other ≠ fd →
      table.pending.lookup other = r.server.clients.pending.lookup other)
    (here : ∀ after, table.pending.lookup fd = some after →
      after.stream = client.stream ∧ Agrees life after) :
    Bounded codec
      ⟨{ r.server with clients := table }, Function.update r.lives client.stream.connection life⟩ := by
  -- Every client of the new table has the stream of one of the old, under the same descriptor.
  have old (other : ℕ) (after : Client) (there : table.pending.lookup other = some after) :
      ∃ before, r.server.clients.pending.lookup other = some before ∧ after.stream = before.stream := by
    by_cases same : other = fd
    · subst same
      exact ⟨client, found, (here after there).1⟩
    · exact ⟨after, (elsewhere other same).symm.trans there, rfl⟩
  refine ⟨few, fun connection => ?_, fun other after there => ?_, fun other after there => ?_,
    fun first second left right found₁ found₂ same => ?_, fun other after there => ?_⟩
  · dsimp only
    by_cases own : connection = client.stream.connection
    · subst own
      rw [Function.update_self]
      exact modest
    · rw [Function.update_of_ne own]
      exact bounded.modest connection
  · obtain ⟨before, was, stream⟩ := old other after there
    rw [stream]
    exact bounded.keyed other before was
  · obtain ⟨before, was, stream⟩ := old other after there
    rw [stream]
    exact bounded.known other before was
  · obtain ⟨one, was, stream⟩ := old first left found₁
    obtain ⟨two, was', stream'⟩ := old second right found₂
    rw [stream, stream'] at same
    exact bounded.apart first second one two was was' same
  · dsimp only
    by_cases same : other = fd
    · subst same
      obtain ⟨stream, agrees⟩ := here after there
      rw [stream, Function.update_self]
      exact agrees
    · have was := (elsewhere other same).symm.trans there
      rw [Function.update_of_ne fun own => same (bounded.apart other fd after client was found own)]
      exact bounded.agrees other after was

theorem turned_none (before : State) : turned before none = none := by cases before <;> rfl

theorem turned_writing (frame : Bytes) (sent : ℕ) (after : Option State) :
    turned (.writing frame sent) after = none := rfl

variable (texts) in
/-- The life of a connection after a slot, whatever came of it. -/
theorem lived_modest {s : Server} {slot : Server.Slot} {client : Client} {life : Life}
    (found : s.clients.pending.lookup slot.fd = some client) (keyed : client.stream.fd = slot.fd)
    (modest : Modest codec life) (agrees : Agrees life client) :
    Modest codec (Recorded.lived codec texts s slot client life) ∧
      ∀ after, (s.serviceSlot codec texts slot).clients.pending.lookup slot.fd = some after →
        after.stream = client.stream ∧ Agrees (Recorded.lived codec texts s slot client life) after := by
  have came := serviceSlot_came codec texts found keyed
  have continued : life.written ++ (if client.deadline ≤ slot.now then [] else client.written slot.kernel) <+:
      (life.turns.map Prod.snd).flatten := by
    split_ifs
    · rw [List.append_nil]
      exact modest.written
    · exact modest.continued agrees slot.kernel
  simp only [Recorded.lived]
  generalize (s.serviceSlot codec texts slot).clients = table at came ⊢
  generalize (s.clients.service codec texts slot.fd slot.now slot.kernel).2.isSome = requested at came ⊢
  cases came with
  | gone _ asked =>
    have none : (s.clients.pending.erase slot.fd).lookup slot.fd = none := by
      rw [SortedMap.lookup_erase, if_pos rfl]
    dsimp only
    rw [none, Option.map_none, turned_none, Option.map_none, Option.toList_none, List.append_nil]
    refine ⟨⟨?_, modest.turns, modest.frames, continued⟩, fun _ there => nomatch there⟩
    cases requested with
    | false => exact modest.requests
    | true =>
      obtain ⟨buf, state⟩ := asked rfl
      dsimp only
      rw [(agrees.reading state).1]
      exact le_rfl
  | reads more state =>
    obtain ⟨requests, turns, deadline⟩ := agrees.reading state
    dsimp only
    rw [SortedMap.lookup_insert_self, Option.map_some, state]
    refine ⟨⟨modest.requests, ?_, ?_, ?_⟩, ?_⟩
    · simpa [turned] using modest.turns
    · simpa [turned] using modest.frames
    · simpa [turned] using continued
    · rintro _ ⟨⟩
      exact ⟨rfl, requests, by simp [turned, turns], deadline⟩
  | writes taken inTime state within wrote =>
    obtain ⟨instant, turns, deadline, written⟩ := agrees.writing state
    dsimp only
    rw [SortedMap.lookup_insert_self, state, turned_writing, Option.map_none, Option.toList_none,
      List.append_nil]
    refine ⟨⟨modest.requests, modest.turns, modest.frames, continued⟩, ?_⟩
    rintro _ ⟨⟩
    refine ⟨rfl, instant, turns, deadline, ?_⟩
    dsimp only
    rw [if_neg inTime, written, wrote, take_append_writeChunk within]
  | turns reply requested state =>
    obtain ⟨requests, turns, deadline⟩ := agrees.reading state
    have unwritten := modest.unwritten turns
    have silent : client.written slot.kernel = [] := (advance_reading codec state slot.kernel).1
    dsimp only
    rw [SortedMap.lookup_insert_self, Option.map_some, state, reply_eq, turns, unwritten, silent, requests]
    refine ⟨⟨?_, le_rfl, ?_, ?_⟩, ?_⟩
    · dsimp only
      split_ifs <;> simp
    · intro turn member
      obtain rfl := List.mem_singleton.mp member
      exact replyFrame_encoded codec texts reply
    · simp
    · rintro _ ⟨⟩
      exact ⟨rfl, _, rfl, rfl, by simp⟩

theorem Came.few {s : Server} {slot : Server.Slot} {client : Client} {table : Clients} {requested : Bool}
    (came : Came codec texts s slot client table requested)
    (found : s.clients.pending.lookup slot.fd = some client) :
    table.pending.entries.length ≤ s.clients.pending.entries.length := by
  cases came with
  | gone => exact Nat.le_of_lt (SortedMap.length_erase_lt found)
  | reads => exact SortedMap.length_insert_of_lookup found _
  | writes => exact SortedMap.length_insert_of_lookup found _
  | turns => exact SortedMap.length_insert_of_lookup found _

theorem Came.elsewhere {s : Server} {slot : Server.Slot} {client : Client} {table : Clients} {requested : Bool}
    (came : Came codec texts s slot client table requested) {other : ℕ} (apart : other ≠ slot.fd) :
    table.pending.lookup other = s.clients.pending.lookup other := by
  cases came with
  | gone => exact (SortedMap.lookup_erase _ _ _).trans (if_neg apart)
  | reads => exact SortedMap.lookup_insert_of_ne _ _ apart
  | writes => exact SortedMap.lookup_insert_of_ne _ _ apart
  | turns => exact SortedMap.lookup_insert_of_ne _ _ apart

variable (codec texts) in
theorem serviceSlot_accepted (s : Server) (slot : Server.Slot) :
    (s.serviceSlot codec texts slot).accepted = s.accepted := by
  rw [Server.serviceSlot]
  generalize s.clients.service codec texts slot.fd slot.now slot.kernel = served
  obtain ⟨clients, handed⟩ := served
  cases handed with
  | none => rfl
  | some pair =>
    dsimp only
    cases slot.handle pair.1 pair.2 <;> rfl

theorem slot_bounded {r : Recorded} (bounded : Bounded codec r) (slot : Server.Slot) :
    Bounded codec (r.step codec texts (.slot slot)) := by
  cases found : r.server.clients.pending.lookup slot.fd with
  | none =>
    have same : r.step codec texts (.slot slot) = r := by
      simp only [Recorded.step, Server.step, Server.serviceSlot, Clients.service, found]
    rw [same]
    exact bounded
  | some client =>
    have keyed := bounded.keyed slot.fd client found
    have came := serviceSlot_came codec texts found keyed
    obtain ⟨modest, here⟩ := lived_modest texts found keyed (bounded.modest client.stream.connection)
      (bounded.agrees slot.fd client found)
    have updated := bounded.update found ((came.few found).trans bounded.few) modest
      (fun other apart => came.elsewhere apart) here
    have same : r.step codec texts (.slot slot) =
        ⟨{ r.server with clients := (r.server.serviceSlot codec texts slot).clients },
          Function.update r.lives client.stream.connection
            (Recorded.lived codec texts r.server slot client (r.lives client.stream.connection))⟩ := by
      simp only [Recorded.step, Server.step, found]
      congr 1
      rw [← serviceSlot_accepted codec texts r.server slot]
    rw [same]
    exact updated

/-! ## Expiry and acceptance keep the bounds -/

theorem expire_bounded {r : Recorded} (bounded : Bounded codec r) (now : ℕ) :
    Bounded codec (r.step codec texts (.expire now)) := by
  have kept (fd : ℕ) (client : Client)
      (there : (r.server.clients.expire now).pending.lookup fd = some client) :
      r.server.clients.pending.lookup fd = some client := by
    rw [Clients.expire, SortedMap.lookup_filter, Option.filter_eq_some_iff] at there
    exact there.1
  exact
    { few := (SortedMap.length_filter_le _ _).trans bounded.few
      modest := bounded.modest
      keyed := fun fd client there => bounded.keyed fd client (kept fd client there)
      known := fun fd client there => bounded.known fd client (kept fd client there)
      apart := fun fd other client second left right =>
        bounded.apart fd other client second (kept fd client left) (kept other second right)
      agrees := fun fd client there => bounded.agrees fd client (kept fd client there) }

/-- A new connection has a life of its own. -/
theorem acceptOne_bounded {s : Server} {lives : ℕ → Life} (bounded : Bounded codec ⟨s, lives⟩)
    (room : s.clients.canAccept = true) (now fd : ℕ) (nonblocking : Bool) :
    Bounded codec ⟨s.acceptOne now fd nonblocking, Function.update lives s.accepted { accepted := now }⟩ := by
  have fresh : Modest codec { accepted := now } :=
    ⟨Nat.zero_le 1, Nat.zero_le 1, (fun _ none => nomatch none), List.nil_prefix⟩
  have modest (connection : ℕ) :
      Modest codec (Function.update lives s.accepted { accepted := now } connection) := by
    by_cases own : connection = s.accepted
    · subst own
      rw [Function.update_self]
      exact fresh
    · rw [Function.update_of_ne own]
      exact bounded.modest connection
  have agrees (other : ℕ) (client : Client) (there : s.clients.pending.lookup other = some client) :
      Agrees (Function.update lives s.accepted { accepted := now } client.stream.connection) client := by
    rw [Function.update_of_ne (Nat.ne_of_lt (bounded.known other client there))]
    exact bounded.agrees other client there
  cases nonblocking with
  | false =>
    exact
      { few := bounded.few
        modest := modest
        keyed := bounded.keyed
        known := fun other client there => Nat.lt_succ_of_lt (bounded.known other client there)
        apart := bounded.apart
        agrees := agrees }
  | true =>
    have found (other : ℕ) (client : Client)
        (there : (s.clients.add ⟨fd, s.accepted⟩ now).pending.lookup other = some client) :
        (other = fd ∧ client = ⟨⟨fd, s.accepted⟩, now + ioTimeout, .reading []⟩) ∨
          s.clients.pending.lookup other = some client := by
      rw [Clients.add, SortedMap.lookup_insert] at there
      split_ifs at there with same
      · exact .inl ⟨same, (Option.some.inj there).symm⟩
      · exact .inr there
    refine ⟨?_, modest, fun other client there => ?_, fun other client there => ?_,
      fun first second left right one two same => ?_, fun other client there => ?_⟩
    · have inserted := s.clients.pending.length_insert_le fd ⟨⟨fd, s.accepted⟩, now + ioTimeout, .reading []⟩
      have limit : s.clients.pending.entries.length < maxClients := of_decide_eq_true room
      exact inserted.trans limit
    · obtain ⟨rfl, rfl⟩ | was := found other client there
      · rfl
      · exact bounded.keyed other client was
    · obtain ⟨rfl, rfl⟩ | was := found other client there
      · exact Nat.lt_succ_self _
      · exact Nat.lt_succ_of_lt (bounded.known other client was)
    · obtain ⟨rfl, rfl⟩ | was := found first left one
      · obtain ⟨rfl, rfl⟩ | was' := found second right two
        · rfl
        · exact absurd same.symm (Nat.ne_of_lt (bounded.known second right was'))
      · obtain ⟨rfl, rfl⟩ | was' := found second right two
        · exact absurd same (Nat.ne_of_lt (bounded.known first left was))
        · exact bounded.apart first second left right was was' same
    · obtain ⟨rfl, rfl⟩ | was := found other client there
      · change Agrees (Function.update lives s.accepted { accepted := now } s.accepted) _
        rw [Function.update_self]
        exact ⟨rfl, rfl, rfl⟩
      · exact agrees other client was

/-- What an answer of the listener leads to, where there is room. -/
def admitted (now rounds : ℕ) (s : Server) (rest : List Accepted) : Accepted → Server
  | .ok fd nonblocking => Server.acceptFrom now rounds (s.acceptOne now fd nonblocking) rest
  | .wouldBlock => s
  | .failed => s

theorem acceptFrom_cons (now rounds : ℕ) (s : Server) (answer : Accepted) (rest : List Accepted) :
    Server.acceptFrom now (rounds + 1) s (answer :: rest) =
      if s.clients.canAccept then admitted now rounds s rest answer else s := by
  cases answer <;> rfl

theorem acceptFrom_accepted (now rounds : ℕ) (s : Server) (answers : List Accepted) :
    s.accepted ≤ (Server.acceptFrom now rounds s answers).accepted := by
  induction rounds generalizing s answers with
  | zero => exact le_rfl
  | succ rounds ih =>
    cases answers with
    | nil => exact le_rfl
    | cons answer rest =>
      rw [acceptFrom_cons]
      split_ifs
      · cases answer with
        | ok fd nonblocking => exact (Nat.le_succ _).trans (ih (s.acceptOne now fd nonblocking) rest)
        | wouldBlock => exact le_rfl
        | failed => exact le_rfl
      · exact le_rfl

/-- Lives where nobody was accepted. -/
theorem lives_unaccepted (lives : ℕ → Life) (now accepted : ℕ) :
    (fun connection => if accepted ≤ connection ∧ connection < accepted then { accepted := now }
      else lives connection) = lives := by
  funext connection
  exact if_neg (by omega)

theorem acceptFrom_bounded (now rounds : ℕ) {s : Server} {lives : ℕ → Life} (bounded : Bounded codec ⟨s, lives⟩)
    (answers : List Accepted) :
    Bounded codec ⟨Server.acceptFrom now rounds s answers, fun connection =>
      if s.accepted ≤ connection ∧ connection < (Server.acceptFrom now rounds s answers).accepted then
        { accepted := now }
      else lives connection⟩ := by
  have nobody : Bounded codec ⟨s, fun connection =>
      if s.accepted ≤ connection ∧ connection < s.accepted then { accepted := now } else lives connection⟩ := by
    rw [lives_unaccepted]
    exact bounded
  induction rounds generalizing s lives answers with
  | zero => exact nobody
  | succ rounds ih =>
    cases answers with
    | nil => exact nobody
    | cons answer rest =>
      rw [acceptFrom_cons]
      split_ifs with room
      · cases answer with
        | ok fd nonblocking =>
          have first := acceptOne_bounded bounded room now fd nonblocking
          have all := ih first rest (by rw [lives_unaccepted]; exact first)
          have later := acceptFrom_accepted now rounds (s.acceptOne now fd nonblocking) rest
          have next : (s.acceptOne now fd nonblocking).accepted = s.accepted + 1 := rfl
          rw [admitted]
          refine (congrArg (fun lives => Bounded codec ⟨_, lives⟩) (funext fun connection => ?_)).mp all
          by_cases own : connection = s.accepted
          · subst own
            rw [if_neg (by omega), if_pos (by omega), Function.update_self]
          · rw [Function.update_of_ne own]
            congr 1
            exact propext (by omega)
        | wouldBlock => exact nobody
        | failed => exact nobody
      · exact nobody

/-! ## Whole runs -/

variable (codec texts)

/-- The control section of the loop as a machine. -/
def Server.machine : Transducer Server Server.Op Unit where
  step s op := (s.step codec texts op, ())

/-- The same with a record of every connection. -/
def Recorded.machine : Transducer Recorded Server.Op Unit where
  step r op := (r.step codec texts op, ())

/-- The record is kept beside the server and does not change it. -/
theorem Recorded.run_server (r : Recorded) (ops : List Server.Op) :
    ((Recorded.machine codec texts).run r ops).server = (Server.machine codec texts).run r.server ops := by
  induction ops generalizing r with
  | nil => rfl
  | cons op rest ih => exact ih _

variable {codec texts}

theorem step_bounded {r : Recorded} (op : Server.Op) (bounded : Bounded codec r) :
    Bounded codec (r.step codec texts op) := by
  cases op with
  | expire now => exact expire_bounded bounded now
  | slot slot => exact slot_bounded bounded slot
  | accept now answers => exact acceptFrom_bounded now acceptBatch bounded answers

theorem init_bounded : Bounded codec .init where
  few := Nat.zero_le _
  modest _ := ⟨Nat.zero_le 1, Nat.zero_le 1, (fun _ none => nomatch none), List.nil_prefix⟩
  keyed _ _ none := nomatch none
  known _ _ none := nomatch none
  apart _ _ _ _ none := nomatch none
  agrees _ _ none := nomatch none

/-- What was recorded of a connection stays recorded. -/
structure Grown (before after : Life) : Prop where
  accepted : after.accepted = before.accepted
  requests : before.requests ≤ after.requests
  turns : before.turns <+: after.turns
  written : before.written <+: after.written

theorem Grown.refl (life : Life) : Grown life life := ⟨rfl, le_rfl, List.prefix_rfl, List.prefix_rfl⟩

theorem Grown.trans {first second third : Life} (left : Grown first second) (right : Grown second third) :
    Grown first third :=
  ⟨right.accepted.trans left.accepted, left.requests.trans right.requests, left.turns.trans right.turns,
    left.written.trans right.written⟩

variable (codec texts) in
theorem step_grown (r : Recorded) (op : Server.Op) {connection : ℕ} (known : connection < r.server.accepted) :
    Grown (r.lives connection) ((r.step codec texts op).lives connection) ∧
      connection < (r.step codec texts op).server.accepted := by
  cases op with
  | expire now => exact ⟨.refl _, known⟩
  | slot slot =>
    refine ⟨?_, known.trans_eq (serviceSlot_accepted codec texts r.server slot).symm⟩
    simp only [Recorded.step]
    cases r.server.clients.pending.lookup slot.fd with
    | none => exact .refl _
    | some client =>
      dsimp only
      by_cases own : connection = client.stream.connection
      · subst own
        rw [Function.update_self]
        exact ⟨rfl, Nat.le_add_right _ _, List.prefix_append _ _, List.prefix_append _ _⟩
      · rw [Function.update_of_ne own]
        exact .refl _
  | accept now answers =>
    refine ⟨?_, known.trans_le (acceptFrom_accepted now acceptBatch r.server answers)⟩
    simp only [Recorded.step]
    rw [if_neg (by omega)]
    exact .refl _

theorem run_grown (r : Recorded) (ops : List Server.Op) {connection : ℕ}
    (known : connection < r.server.accepted) :
    Grown (r.lives connection) (((Recorded.machine codec texts).run r ops).lives connection) := by
  induction ops generalizing r with
  | nil => exact .refl _
  | cons op rest ih =>
    obtain ⟨grown, still⟩ := step_grown codec texts r op known
    exact grown.trans (ih (r.step codec texts op) still)

/-- A connection that was accepted hands over at most one request, turns to writing at most once, and
writes no more than a beginning of the one frame it turned to. -/
structure OneReply (codec : Msgpack ε) (life : Life) : Prop where
  requests : life.requests ≤ 1
  written : (life.turns = [] ∧ life.written = []) ∨
    ∃ instant, ∃ reply : Reply, life.turns = [(instant, frame (reply.encode codec))] ∧
      life.written <+: frame (reply.encode codec)

theorem Modest.oneReply {life : Life} (modest : Modest codec life) : OneReply codec life := by
  refine ⟨modest.requests, ?_⟩
  cases turns : life.turns with
  | nil => exact .inl ⟨rfl, modest.unwritten turns⟩
  | cons turn rest =>
    have one := modest.turns
    rw [turns] at one
    obtain rfl : rest = [] := List.eq_nil_of_length_eq_zero (Nat.le_zero.mp (Nat.le_of_succ_le_succ one))
    obtain ⟨reply, encoded⟩ := modest.frames turn (by rw [turns]; exact List.mem_cons_self)
    refine .inr ⟨turn.1, reply, by rw [← encoded], ?_⟩
    have within := modest.written
    rw [turns] at within
    simpa [encoded] using within

variable (codec texts)

/-- After any operations of the loop, whatever the peers and the kernel do: the table is within its
bound; every connection has handed over at most one request and written a beginning of at most one
frame; a connection in the table is in the state its record says, with the deadline of its acceptance
or of its one turn; and no later operation takes anything of a record back. -/
theorem slots_bounded (ops : List Server.Op) :
    let r := (Recorded.machine codec texts).run .init ops
    r.server = (Server.machine codec texts).run .init ops ∧
      r.server.clients.pending.entries.length ≤ maxClients ∧
      (∀ connection, OneReply codec (r.lives connection)) ∧
      (∀ fd client, r.server.clients.pending.lookup fd = some client →
        client.stream.connection < r.server.accepted ∧ Agrees (r.lives client.stream.connection) client) ∧
      ∀ more connection, connection < r.server.accepted →
        Grown (r.lives connection)
          (((Recorded.machine codec texts).run .init (ops ++ more)).lives connection) := by
  intro r
  have bounded : Bounded codec r := (Recorded.machine codec texts).run_invariant
    (fun _ op before => step_bounded op before) init_bounded ops
  refine ⟨Recorded.run_server codec texts .init ops, bounded.few,
    fun connection => (bounded.modest connection).oneReply,
    fun fd client there => ⟨bounded.known fd client there, bounded.agrees fd client there⟩,
    fun more connection known => ?_⟩
  rw [Transducer.run_append]
  exact run_grown r more known

end Slots

end Netd.Model.Control
