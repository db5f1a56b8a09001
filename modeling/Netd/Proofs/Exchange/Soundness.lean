import Netd.Proofs.Exchange.Connections

/-! # An exchange does what it says

A request is carried out at most once, never another than the program's own, and only by a daemon that lets
the program have it; nothing else that comes over a connection changes the daemon. A program that is told
of success has had its request carried out, and a status it is given is the status that was then.
-/

namespace Netd.Model.Exchange

open Wire Channel

section Soundness

variable {D W ε : Type} {codec : Msgpack ε} {texts : Texts ε} {handle : Handler D W}

/-! ## The system -/

variable (codec texts handle) in
/-- What holds of the daemon's ends and the connections at any time. -/
structure Sound (server : Control.Server) (links : ℕ → Link D W) (connected : ℕ) : Prop where
  gone : ∀ connection, Gone codec texts handle (links connection)
  waiting : ∀ connection, server.accepted ≤ connection → Held codec texts handle (links connection) (.reading [])
  held : ∀ fd client, server.clients.pending.lookup fd = some client →
    Held codec texts handle (links client.stream.connection) client.state
  queued : server.accepted ≤ connected
  bounded : ∃ lives, Control.Bounded codec ⟨server, lives⟩

variable {server : Control.Server} {links : ℕ → Link D W} {connected : ℕ}

/-- A program that nobody has served yet. -/
theorem held_start (command : Command) (until_ : ℕ) :
    Held codec texts handle { System.unused with caller := .start codec command until_ } (.reading []) := by
  have before : ([] : Bytes).length < (frame (command.request.encode codec)).length :=
    List.length_pos_of_ne_nil (frame_ne_nil _)
  cases accepted : codec.toBytes command.request.tokens with
  | none =>
    have start : Caller.start codec command until_ = ⟨command, until_, .stopped⟩ := by
      rw [Caller.start, accepted]
    rw [start]
    exact ⟨⟨rfl, trivial⟩, before, ⟨_, rfl, fun _ stage => by cases stage⟩, .inr ⟨rfl, rfl, rfl⟩⟩
  | some payload =>
    have written : command.request.encode codec = payload := by
      rw [Wire.Request.encode, accepted, Option.getD_some]
    by_cases large : payload.length > maxMessageBytes
    · have start : Caller.start codec command until_ =
          ⟨command, until_, .returned (.error (invalid "request exceeds 64 KiB"))⟩ := by
        rw [Caller.start, accepted]
        dsimp only
        rw [if_pos large]
      rw [start]
      exact ⟨⟨rfl, trivial⟩, before, ⟨_, rfl, fun _ stage => by cases stage⟩, .inr ⟨rfl, rfl, rfl⟩⟩
    · have start : Caller.start codec command until_ = ⟨command, until_, .sending (frame payload)⟩ := by
        rw [Caller.start, accepted]
        dsimp only
        rw [if_neg large]
      rw [start]
      refine ⟨⟨rfl, rfl⟩, before, ⟨frame payload, ?_, fun pending stage => ?_⟩,
        .inl ⟨payload, accepted, Nat.not_lt.mp large⟩⟩
      · exact congrArg frame written.symm
      · exact (Stage.sending.inj stage).symm

theorem held_unused : Held codec texts handle System.unused (.reading []) := by
  refine ⟨⟨rfl, trivial⟩, ⟨List.length_pos_of_ne_nil (frame_ne_nil _), ?_, .inr ⟨rfl, rfl, rfl⟩⟩⟩
  exact ⟨_, rfl, fun _ stage => by cases stage⟩

theorem init_sound : Sound codec texts handle .init (fun _ => System.unused) 0 where
  gone _ := held_unused.gone
  waiting _ _ := held_unused
  held _ _ there := by cases there
  queued := le_rfl
  bounded := ⟨_, Control.init_bounded⟩

theorem Sound.connect (sound : Sound codec texts handle server links connected) (command : Command) (until_ : ℕ) :
    Sound codec texts handle server
      (Function.update links connected { System.unused with caller := .start codec command until_ })
      (connected + 1) where
  gone connection := by
    rw [Function.update_apply]
    split_ifs
    · exact (held_start command until_).gone
    · exact sound.gone connection
  waiting connection later := by
    rw [Function.update_apply]
    split_ifs
    · exact held_start command until_
    · exact sound.waiting connection later
  held fd client there := by
    obtain ⟨_, bounded⟩ := sound.bounded
    have known := bounded.known fd client there
    rw [Function.update_of_ne (known.trans_le sound.queued).ne]
    exact sound.held fd client there
  queued := sound.queued.trans (Nat.le_succ connected)
  bounded := sound.bounded

/-- A step of one program leaves the daemon and the other connections alone. -/
theorem Sound.round (sound : Sound codec texts handle server links connected) (connection : ℕ) (daemonOpen : Bool)
    (now : ℕ) (answer : Answer) (waited : Except IoError Unit) :
    Sound codec texts handle server
      (Function.update links connection ((links connection).round codec texts daemonOpen now answer waited))
      connected where
  gone other := by
    rw [Function.update_apply]
    split_ifs with same
    · exact (sound.gone connection).round daemonOpen now answer waited
    · exact sound.gone other
  waiting other later := by
    rw [Function.update_apply]
    split_ifs with same
    · exact (sound.waiting connection (same ▸ later)).round daemonOpen now answer waited
    · exact sound.waiting other later
  held fd client there := by
    rw [Function.update_apply]
    split_ifs with same
    · exact (same ▸ sound.held fd client there).round daemonOpen now answer waited
    · exact sound.held fd client there
  queued := sound.queued
  bounded := sound.bounded

theorem Sound.acceptOne (sound : Sound codec texts handle server links connected)
    (room : server.clients.canAccept = true) (waits : server.accepted < connected) (now fd : ℕ) (nonblocking : Bool) :
    Sound codec texts handle (server.acceptOne now fd nonblocking) links connected where
  gone := sound.gone
  waiting connection later := sound.waiting connection (Nat.le_of_succ_le later)
  held other client there := by
    cases nonblocking with
    | false => exact sound.held other client there
    | true =>
      change (server.clients.pending.insert fd _).lookup other = some client at there
      rw [SortedMap.lookup_insert] at there
      split_ifs at there
      · obtain rfl := Option.some.inj there
        exact sound.waiting server.accepted le_rfl
      · exact sound.held other client there
  queued := waits
  bounded := by
    obtain ⟨_, bounded⟩ := sound.bounded
    exact ⟨_, Control.acceptOne_bounded bounded room now fd nonblocking⟩

/-- No more connections are accepted than are waiting. -/
theorem Sound.acceptFrom (now rounds : ℕ) (sound : Sound codec texts handle server links connected)
    (answers : List Control.Accepted) (few : server.accepted + answers.length ≤ connected) :
    Sound codec texts handle (Control.Server.acceptFrom now rounds server answers) links connected := by
  induction rounds generalizing server answers with
  | zero => exact sound
  | succ rounds ih =>
    cases answers with
    | nil => exact sound
    | cons answer rest =>
      rw [Control.acceptFrom_cons]
      split_ifs with room
      · rw [List.length_cons] at few
        cases answer with
        | ok fd nonblocking =>
          have next : (server.acceptOne now fd nonblocking).accepted = server.accepted + 1 := rfl
          exact ih (sound.acceptOne room (by omega) now fd nonblocking) rest (by omega)
        | wouldBlock => exact sound
        | failed => exact sound
      · exact sound

theorem Sound.expire (sound : Sound codec texts handle server links connected) (now : ℕ) :
    Sound codec texts handle { server with clients := server.clients.expire now } links connected where
  gone := sound.gone
  waiting := sound.waiting
  held fd client there := by
    change (server.clients.pending.filter _).lookup fd = some client at there
    rw [SortedMap.lookup_filter, Option.filter_eq_some_iff] at there
    exact sound.held fd client there.1
  queued := sound.queued
  bounded := by
    obtain ⟨lives, bounded⟩ := sound.bounded
    have next : Control.Bounded codec (Control.Recorded.step codec texts ⟨server, lives⟩ (.expire now)) :=
      Control.expire_bounded bounded now
    exact ⟨_, next⟩

/-- A served descriptor changes its own connection, and its own entry of the table. -/
theorem Sound.serve (lawful : codec.Lawful Spelt) (verbatim : codec.Verbatim) (answering : handle.Answers)
    (sound : Sound codec texts handle server links connected) (daemon : D) (r : Ready W)
    {client : Control.Client} (found : server.clients.pending.lookup r.fd = some client) :
    let l := links client.stream.connection
    Sound codec texts handle (server.serviceSlot codec texts (r.slot handle daemon l))
      (Function.update links client.stream.connection (l.served codec texts handle server daemon client r))
      connected := by
  intro l
  obtain ⟨lives, bounded⟩ := sound.bounded
  have keyed := bounded.keyed r.fd client found
  have known := bounded.known r.fd client found
  have left : Left codec texts handle (l.served codec texts handle server daemon client r) client.stream r.fd
      (server.serviceSlot codec texts (r.slot handle daemon l)).clients :=
    served_left found lawful verbatim answering keyed (sound.held r.fd client found)
  have accepted := Control.serviceSlot_accepted codec texts server (r.slot handle daemon l)
  refine ⟨fun other => ?_, fun other later => ?_, fun fd after there => ?_, ?_, ?_⟩
  · rw [Function.update_apply]
    split_ifs
    · exact left.gone
    · exact sound.gone other
  · rw [accepted] at later
    rw [Function.update_of_ne (known.trans_le later).ne']
    exact sound.waiting other later
  · by_cases own : fd = r.fd
    · subst own
      obtain ⟨stream, held⟩ := left.held after there
      rw [stream, Function.update_self]
      exact held
    · have there' : server.clients.pending.lookup (r.slot handle daemon l).fd = some client := found
      have came := Control.serviceSlot_came codec texts there' keyed
      have was := (came.elsewhere own).symm.trans there
      rw [Function.update_of_ne fun same => own (bounded.apart fd r.fd after client was found same)]
      exact sound.held fd after was
  · rw [accepted]
    exact sound.queued
  · have next : Control.Bounded codec
        (Control.Recorded.step codec texts ⟨server, lives⟩ (.slot (r.slot handle daemon l))) :=
      Control.step_bounded _ bounded
    exact ⟨_, next⟩

/-- Every step keeps the system sound. -/
theorem step_sound (lawful : codec.Lawful Spelt) (verbatim : codec.Verbatim) (answering : handle.Answers)
    {s : System D W} (sound : Sound codec texts handle s.server s.links s.connected) (op : System.Op D W) :
    Sound codec texts handle (s.step codec texts handle op).server (s.step codec texts handle op).links
      (s.step codec texts handle op).connected := by
  cases op with
  | connect command now timeoutMs =>
    rw [System.step]
    cases deadline now timeoutMs with
    | error e => exact sound
    | ok until_ => exact sound.connect command until_
  | round connection now answer waited => exact sound.round connection _ now answer waited
  | accept now answers =>
    refine sound.acceptFrom now Control.acceptBatch _ ?_
    have few := List.length_take_le (s.connected - s.server.accepted) answers
    have queued := sound.queued
    omega
  | expire now => exact sound.expire now
  | ready r =>
    rw [System.step, System.serve]
    cases found : s.server.clients.pending.lookup r.fd with
    | none => exact sound
    | some client => exact sound.serve lawful verbatim answering s.daemon r found
  | works daemon => exact sound

theorem run_sound (lawful : codec.Lawful Spelt) (verbatim : codec.Verbatim) (answering : handle.Answers) (boot : D)
    (ops : List (System.Op D W)) :
    let s := (System.machine codec texts handle).run (.init boot) ops
    Sound codec texts handle s.server s.links s.connected := by
  let inv (s : System D W) : Prop := Sound codec texts handle s.server s.links s.connected
  have preserved (s : System D W) (op : System.Op D W) (before : inv s) :
      inv ((System.machine codec texts handle).next s op) := step_sound lawful verbatim answering before op
  exact (System.machine codec texts handle).run_invariant preserved init_sound ops

/-! ## What a step does to the daemon -/

/-- The daemon carries one request of one connection out, from the state it is in, or nothing. -/
def CarriesOne (s after : System D W) : Prop :=
  (after.daemon = s.daemon ∧ ∀ connection, (after.links connection).carried = (s.links connection).carried) ∨
    ∃ connection entry, entry.before = s.daemon ∧ entry.after = after.daemon ∧ ∀ other,
      (after.links other).carried = (s.links other).carried ++ if other = connection then [entry] else []

/-- What was carried out says what became of the daemon; what was refused did nothing to it. -/
theorem carried_spec (answering : handle.Answers) (met : W) (before : D) (request : Wire.Request) :
    (handle.carried met before request = none ∧ (handle met before request).1 = before) ∨
      ∃ entry, handle.carried met before request = some entry ∧ entry.before = before ∧
        entry.after = (handle met before request).1 := by
  rw [Handler.carried]
  cases handled : handle met before request with
  | mk after reply =>
    dsimp only
    cases reply with
    | none => exact .inr ⟨_, rfl, rfl, rfl⟩
    | some reply =>
      cases reply with
      | error message => exact .inl ⟨rfl, answering.refused met before request after message handled⟩
      | ok => exact .inr ⟨_, rfl, rfl, rfl⟩
      | status s => exact .inr ⟨_, rfl, rfl, rfl⟩
      | snapshot s => exact .inr ⟨_, rfl, rfl, rfl⟩

/-- A served connection logs what was done to the daemon. -/
theorem serve_carriesOne (answering : handle.Answers) (s : System D W) (r : Ready W) :
    CarriesOne s (s.serve codec texts handle r) := by
  rw [System.serve]
  cases s.server.clients.pending.lookup r.fd with
  | none => exact .inl ⟨rfl, fun _ => rfl⟩
  | some client =>
    dsimp only
    generalize client.stream.connection = connection
    cases asked : r.request codec texts (s.links connection) s.server with
    | none =>
      refine .inl ⟨rfl, fun other => ?_⟩
      dsimp only
      rw [Function.update_apply]
      split_ifs with same
      · rw [Link.served, asked, same]
        exact List.append_nil _
      · rfl
    | some request =>
      obtain ⟨nothing, stays⟩ | ⟨entry, done, before, after⟩ := carried_spec answering r.met s.daemon request
      · refine .inl ⟨stays, fun other => ?_⟩
        dsimp only
        rw [Function.update_apply]
        split_ifs with same
        · rw [Link.served, asked, same, Option.bind_some, nothing]
          exact List.append_nil _
        · rfl
      · refine .inr ⟨connection, entry, before, after, fun other => ?_⟩
        dsimp only
        rw [Function.update_apply]
        split_ifs with same
        · rw [Link.served, asked, same, Option.bind_some, done]
          rfl
        · rw [List.append_nil]

/-- Only a service touches the daemon, and it says so in the log of its own connection. -/
theorem step_carriesOne (answering : handle.Answers) {s : System D W}
    (sound : Sound codec texts handle s.server s.links s.connected) (op : System.Op D W)
    (asked : ∀ daemon, op ≠ .works daemon) : CarriesOne s (s.step codec texts handle op) := by
  cases op with
  | connect command now timeoutMs =>
    rw [System.step]
    cases deadline now timeoutMs with
    | error e => exact .inl ⟨rfl, fun _ => rfl⟩
    | ok until_ =>
      refine .inl ⟨rfl, fun connection => ?_⟩
      have none : (s.links s.connected).carried = [] := (sound.waiting s.connected sound.queued).1.1
      dsimp only [System.connect]
      rw [Function.update_apply]
      split_ifs with same
      · rw [same, none]
        rfl
      · rfl
  | round connection now answer waited =>
    refine .inl ⟨rfl, fun other => ?_⟩
    dsimp only [System.step]
    rw [Function.update_apply]
    split_ifs with same
    · rw [same, (round_frame codec texts _ _ now answer waited).1]
    · rfl
  | accept now answers => exact .inl ⟨rfl, fun _ => rfl⟩
  | expire now => exact .inl ⟨rfl, fun _ => rfl⟩
  | ready r => exact serve_carriesOne answering s r
  | works daemon => exact absurd rfl (asked daemon)

end Soundness

end Netd.Model.Exchange
