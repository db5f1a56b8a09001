import Netd.Proofs.Exchange.Soundness
import Netd.Proofs.Registry.Reloads

/-! # What a program is told of was done

A request that the control object lets a program have is carried out once, on the daemon as it was at that
moment: a status is read off it, a reconcile runs its passes, a renewal reaches the client of the interface it
names. A program is told of success only then, and a request that was refused left the daemon alone.
-/

namespace Netd.Model.Exchange

open Wire Channel
open Registry (noConditions)

/-! ## Replies that arrive -/

section Replies

variable {ε : Type} {codec : Msgpack ε} {texts : Texts ε}

/-- A reply whose lists a header can count, whose texts have a form, and whose length a machine word holds. -/
structure Counted (codec : Msgpack ε) (reply : Reply) : Prop where
  short : reply.Short
  spells : reply.Spells Spelt
  length : (reply.encode codec).length < 2 ^ 64

theorem counted_of_size (measured : codec.Measured) {reply : Reply} (short : reply.Short)
    (small : sizes reply.tokens < 2 ^ 32) : Counted codec reply where
  short := short
  spells := reply.spells_of_size small
  length := by
    rw [Reply.length_encode measured short small]
    exact small.trans (by decide)

theorem counted_ok (measured : codec.Measured) : Counted codec .ok :=
  counted_of_size measured trivial (by decide)

theorem counted_error (measured : codec.Measured) {message : String} (small : message.utf8ByteSize < 2 ^ 31) :
    Counted codec (.error message) := by
  have size := sizes_error message
  exact counted_of_size measured trivial (by omega)

theorem decode_reply (lawful : codec.Lawful Spelt) {reply : Reply} (counted : Counted codec reply) :
    Reply.decode codec (reply.encode codec) = .ok reply := by
  have finished : (reply.parts.reply : Except (WireError ε) Reply) = .ok reply := by
    cases reply <;> rfl
  have written : reply.encode codec = reply.doc.encode codec := by rw [Reply.encode, Doc.encode, reply.tokens_doc]
  rw [written]
  exact (roundTrips lawful reply.holds_doc (Reply.fits_doc counted.short counted.spells) finished).back

/-- A reply, or the error in its place, can be received. -/
theorem length_replyPayload (measured : codec.Measured) (texts : Texts ε) {reply : Reply}
    (counted : Counted codec reply) : (replyPayload codec texts reply).length ≤ maxMessageBytes := by
  rw [replyPayload]
  split_ifs with large
  · exact length_tooLarge measured texts counted.length
  · exact Nat.not_lt.mp large

/-- Success is made of no error. -/
theorem settle_ok {command : Command} {reply result : Reply} (settled : settle command (.ok reply) = .ok result) :
    result = reply ∧ isError reply = false := by
  cases reply with
  | error message => cases settled
  | snapshot s => cases settled
  | status s =>
    cases command with
    | status => exact ⟨(Except.ok.inj settled).symm, rfl⟩
    | renew interface => cases settled
    | reconcile => cases settled
  | ok =>
    cases command with
    | status => cases settled
    | renew interface => exact ⟨(Except.ok.inj settled).symm, rfl⟩
    | reconcile => exact ⟨(Except.ok.inj settled).symm, rfl⟩

/-- Success is the daemon's reply. -/
theorem settle_told (lawful : codec.Lawful Spelt) (measured : codec.Measured) {command : Command}
    {reply result : Reply} (counted : Counted codec reply)
    (settled : settle command (openFrame codec texts (replyPayload codec texts reply)) = .ok result) :
    result = reply ∧ isError reply = false := by
  rw [replyPayload] at settled
  split_ifs at settled with large
  · have small := utf8ByteSize_tooLarge texts counted.length
    have instead : Counted codec (.error ((WireError.tooLarge (reply.encode codec).length).display texts)) :=
      counted_error measured (small.trans_lt (by decide))
    rw [openFrame, decode_reply lawful instead] at settled
    cases settled
  · rw [openFrame, decode_reply lawful counted] at settled
    exact settle_ok settled

end Replies

/-! ## What the daemon does -/

section Performed

variable {Condition ε : Type} (sha1 : Bytes → BitVec 160) (language : Policy.Conditions Condition Facts)
  (texts : Texts ε)

/-- What a program asks for, done to the daemon, and what it is told. -/
def Does (w : Circumstances) (before after : Convergence.State Condition) (reply : Reply) : Command → Prop
  | .status => after = before ∧ reply = .status (before.status texts.quoted w.hostnameSet w.now)
  | .reconcile => after = before.converge sha1 language w.now w.rounds ∧ reply = .ok
  | .renew interface =>
    reply = .ok ∧ ∃ index st, before.find interface = some (index, st) ∧ st.interface.dhcp.isSome = true ∧
      after = (before.handle sha1 index (.renew w.now)).1

/-- What was carried out is the program's own request, which the control object lets it have. -/
structure Performed (command : Command) (entry : Carried (Convergence.State Condition) Circumstances)
    (reply : Reply) : Prop where
  request : entry.request = command.request
  permitted : entry.met.permits command.request.requiredRight = true
  done : Does sha1 language texts entry.met entry.before entry.after reply command

/-- What the daemon says when it does nothing. -/
inductive Denied : Wire.Request → String → Prop where
  | access (request) : Denied request "access denied"
  | unknown (interface) : Denied (.renew interface) s!"no interface {interface}"
  | idle (interface) : Denied (.renew interface) s!"{interface} is not using DHCP"

/-- A request is denied, which leaves the daemon as it was, or done. -/
theorem handleControl_spec (w : Circumstances) (before : Convergence.State Condition) (command : Command) :
    (∃ message, Denied command.request message ∧
      handleControl sha1 language texts w before command.request = (before, some (.error message))) ∨
    ∃ after reply, (reply = .ok ∨ ∃ status, reply = .status status) ∧
      handleControl sha1 language texts w before command.request = (after, some reply) ∧
      Performed sha1 language texts command ⟨w, command.request, before, after⟩ reply := by
  unfold handleControl
  cases permitted : w.permits command.request.requiredRight with
  | false => exact .inl ⟨_, .access _, rfl⟩
  | true =>
    rw [Bool.not_true, if_neg Bool.false_ne_true]
    cases command with
    | status => exact .inr ⟨before, _, .inr ⟨_, rfl⟩, rfl, rfl, permitted, rfl, rfl⟩
    | reconcile => exact .inr ⟨_, .ok, .inl rfl, rfl, rfl, permitted, rfl, rfl⟩
    | renew interface =>
      dsimp only [Command.request]
      cases there : before.find interface with
      | none => exact .inl ⟨_, .unknown interface, rfl⟩
      | some entry =>
        obtain ⟨index, st⟩ := entry
        dsimp only
        split_ifs with idle
        · exact .inl ⟨_, .idle interface, rfl⟩
        · rw [Bool.not_eq_true, Option.isNone_eq_false_iff] at idle
          exact .inr ⟨_, .ok, .inl rfl, rfl, rfl, permitted, rfl, index, st, there, idle, rfl⟩

/-- An error leaves the daemon as it was, whatever was asked. -/
theorem handleControl_error {w : Circumstances} {before after : Convergence.State Condition} {request : Wire.Request}
    {message : String} (handled : handleControl sha1 language texts w before request = (after, some (.error message))) :
    after = before := by
  have answered (command : Command) (own : request = command.request) : after = before := by
    subst own
    obtain ⟨_, _, denied⟩ | ⟨_, reply, fine, done, _⟩ := handleControl_spec sha1 language texts w before command
    · exact (congrArg Prod.fst (handled.symm.trans denied))
    · obtain rfl := Option.some.inj (congrArg Prod.snd (handled.symm.trans done))
      obtain fine | ⟨status, fine⟩ := fine
      · cases fine
      · cases fine
  cases request with
  | status => exact answered .status rfl
  | renew interface => exact answered (.renew interface) rfl
  | reconcile => exact answered .reconcile rfl
  | subscribe =>
    rw [handleControl] at handled
    split_ifs at handled
    · exact (congrArg Prod.fst handled).symm
    · cases handled

theorem handleControl_answers : Handler.Answers (handleControl sha1 language texts) where
  answers w before command := by
    obtain ⟨message, _, denied⟩ | ⟨after, reply, _, done, _⟩ :=
      handleControl_spec sha1 language texts w before command
    · exact ⟨_, _, denied⟩
    · exact ⟨_, _, done⟩
  refused _ _ _ _ _ := handleControl_error sha1 language texts

/-- What the daemon says of a request that fits in a message is not long. -/
theorem Denied.small {codec : Msgpack ε} (verbatim : codec.Verbatim) {command : Command}
    (sendable : Sendable codec command) {message : String} (denied : Denied command.request message) :
    message.utf8ByteSize < 2 ^ 31 := by
  have named (interface : String) (own : command.request = .renew interface) :
      interface.utf8ByteSize ≤ maxMessageBytes := by
    obtain ⟨octets, accepted, small⟩ := sendable
    rw [own] at accepted
    refine (verbatim accepted ?_).trans small
    rw [Wire.Request.tokens]
    simp
  have most : maxMessageBytes = 65536 := rfl
  generalize command.request = request at denied named
  cases denied with
  | access => decide +kernel
  | unknown interface =>
    have around : "no interface ".utf8ByteSize = 13 := by decide +kernel
    have short := named interface rfl
    change ("no interface " ++ interface).utf8ByteSize < 2 ^ 31
    rw [String.utf8ByteSize_append, around]
    omega
  | idle interface =>
    have around : " is not using DHCP".utf8ByteSize = 18 := by decide +kernel
    have short := named interface rfl
    change (interface ++ " is not using DHCP").utf8ByteSize < 2 ^ 31
    rw [String.utf8ByteSize_append, around]
    omega

/-! ## Results -/

/-- However the programs, the daemon and the kernel take turns: a request is carried out at most once, and it is
the program's own. A program that is told of success has had it done by a daemon that let it have what it asked
for, and is given what the daemon had then. Besides what the daemon does on its own account, nothing but a
request that is carried out changes it. -/
theorem granted_once {codec : Msgpack ε} (lawful : codec.Lawful Spelt) (verbatim : codec.Verbatim)
    (measured : codec.Measured) (boot : Convergence.State Condition)
    (ops : List (System.Op (Convergence.State Condition) Circumstances)) :
    let machine := System.machine codec texts (handleControl sha1 language texts)
    let s := machine.run (.init boot) ops
    (∀ connection,
      let l := s.links connection
      (l.carried = [] ∧ ∀ result, l.caller.stage ≠ .returned (.ok result)) ∨
        ∃ entry reply, l.carried = [entry] ∧ Performed sha1 language texts l.caller.command entry reply ∧
          ((∀ status, reply = .status status → Counted codec reply) →
            ∀ result, l.caller.stage = .returned (.ok result) → result = reply)) ∧
      ∀ op, (∀ daemon, op ≠ .works daemon) → CarriesOne s (machine.next s op) := by
  intro machine s
  have answering := handleControl_answers sha1 language texts
  have sound : Sound codec texts (handleControl sha1 language texts) s.server s.links s.connected :=
    run_sound lawful verbatim answering boot ops
  refine ⟨fun connection => ?_, fun op own => step_carriesOne answering sound op own⟩
  obtain ⟨none, heard⟩ | ⟨octets, sent, sendable, w, before, reply, handled, carried, rfl, heard⟩ :=
    sound.gone connection
  · refine .inl ⟨none, fun result told => ?_⟩
    unfold Heard at heard
    rw [told] at heard
    exact frame_ne_nil [] heard.1.symm
  -- What the program is told is settled by the reply, where that can be received.
  have settled (counted : Counted codec reply) (result : Reply)
      (told : (s.links connection).caller.stage = .returned (.ok result)) : result = reply ∧ isError reply = false := by
    have heard := heard (length_replyPayload measured texts counted)
    unfold Heard at heard
    rw [told] at heard
    exact settle_told lawful measured counted heard.2
  obtain ⟨message, denied, refused⟩ | ⟨after, reply', fine, done, performed⟩ :=
    handleControl_spec sha1 language texts w before (s.links connection).caller.command
  · rw [refused] at handled
    obtain rfl := Option.some.inj handled
    refine .inl ⟨?_, fun result told => ?_⟩
    · rw [carried, Handler.carried, refused]
      rfl
    · have counted := counted_error measured (denied.small verbatim sendable)
      exact absurd (settled counted result told).2 Bool.true_eq_false.mp
  · rw [done] at handled
    obtain rfl := Option.some.inj handled
    have logged : (s.links connection).carried = [⟨w, (s.links connection).caller.command.request, before, after⟩] := by
      rw [carried, Handler.carried, done]
      obtain rfl | ⟨status, rfl⟩ := fine
      · rfl
      · rfl
    refine .inr ⟨_, reply', logged, performed, fun counted result told => (settled ?_ result told).1⟩
    obtain rfl | ⟨status, rfl⟩ := fine
    · exact counted_ok measured
    · exact counted status rfl

end Performed

/-! ## One exchange -/

/-- A daemon that has seen nothing. -/
def unaware : Convergence.State Unit := ⟨⟨{}, {}, none, none⟩, ⟨.empty, [], []⟩, .empty⟩

/-- What the first pass finds. -/
def appeared : Observed := ⟨.empty, [.new 7 (.v4 0xc0000201) 24], []⟩

/-- Reconciliation is asked for and allowed, and the kernel cuts nothing up. -/
def reconcileOps : List (System.Op (Convergence.State Unit) Circumstances) :=
  let outside : Convergence.Outside := ⟨fun _ => ⟨"", ""⟩, fun _ _ => ⟨none, none, none⟩, fun _ =>
    ⟨0, appeared, none, [], [], none, none, 0, 0, 0, false, false, false⟩⟩
  let met : Circumstances := ⟨fun right => right == networkControl, none, 0, fun _ => ⟨outside, some appeared⟩⟩
  let ready : System.Op (Convergence.State Unit) Circumstances := .ready ⟨7, 0, .pass 4096, met, 0⟩
  let round : System.Op (Convergence.State Unit) Circumstances := .round 0 0 (.pass 4096) (.ok ())
  [.connect .reconcile 0 1000, .accept 0 [.ok 7 true], round, ready, ready, ready, round, round, round]

theorem reconcile_granted :
    let machine := System.machine messagepack plainTexts (handleControl (fun _ => 0) noConditions plainTexts)
    let s := machine.run (.init unaware) reconcileOps
    let l := s.links 0
    l.caller.stage = .returned (.ok .ok) ∧
      l.carried.map (fun entry => (entry.before.observed, entry.after.observed)) =
        [(unaware.observed, appeared)] ∧
      (∃ entry reply, l.carried = [entry] ∧
        Performed (fun _ => 0) noConditions plainTexts l.caller.command entry reply ∧
          ((∀ status, reply = .status status → Counted messagepack reply) →
            ∀ result, l.caller.stage = .returned (.ok result) → result = reply)) ∧
      CarriesOne s (machine.next s (.expire 0)) := by
  have told : (((System.machine messagepack plainTexts
      (handleControl (fun _ => 0) noConditions plainTexts)).run (.init unaware) reconcileOps).links 0).caller.stage =
        .returned (.ok .ok) := by decide +kernel
  have granted := granted_once (fun _ => 0) noConditions plainTexts messagepack_lawful messagepack_verbatim
    messagepack_measured unaware reconcileOps
  refine ⟨told, by decide +kernel, ?_, ?_⟩
  · exact (granted.1 0).resolve_left fun quiet => quiet.2 _ told
  · exact granted.2 _ fun _ same => by cases same

end Netd.Model.Exchange
