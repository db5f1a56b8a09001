import Netd.Proofs.Channel.Exact
import Netd.Proofs.Control.Slots
import Netd.Proofs.Publish.Behind
import Netd.Proofs.Wire.Sizes

/-! # Which frames can be read

Both readers of the protocol refuse a payload past the ceiling. A control reply that is too large gives
way to an error that is not. Snapshots go to subscribers without such a check, so whether a subscriber can
read them depends on how much there is to say: the size of a snapshot is a sum over the interfaces it
reports.
-/

set_option linter.dupNamespace false

namespace Netd.Model

open Wire Channel

/-! ## Readers -/

section Readers

variable {ε : Type} (codec : Msgpack ε) (texts : Texts ε)

/-- A frame of this payload is read by the daemon's protocol and by a client's channel, given the rounds. -/
structure Readable (payload : Bytes) : Prop where
  small : payload.length ≤ maxMessageBytes
  recv : ∀ more, (Wire.recv (frame payload ++ more) : Except (WireError ε) _) = .ok (payload, more)
  receive : ∀ more until_ rounds, (∀ round ∈ rounds, Round.Patient until_ round) →
    (frame payload).length < rounds.countP Round.delivers →
      Channel.receive codec texts until_ ⟨frame payload ++ more, []⟩ rounds =
        (⟨more, []⟩, some (openFrame codec texts payload))

variable {codec texts}

/-- Every payload up to the ceiling is readable. -/
theorem Readable.of_small {payload : Bytes} (small : payload.length ≤ maxMessageBytes) :
    Readable codec texts payload := by
  have fits : payload.length < 2 ^ 32 := Nat.lt_of_le_of_lt small (by decide)
  refine ⟨small, fun more => ?_, fun more until_ rounds patient enough => ?_⟩
  · have complete := complete_frame small more
    have rest : (frame payload ++ more).drop (4 + announced (frame payload ++ more)) = more := by
      rw [announced_frame fits, ← length_frame, List.drop_left]
    rw [Wire.recv, if_neg (Nat.not_lt.mpr complete.known), if_neg (Nat.not_lt.mpr complete.small),
      if_neg (Nat.not_lt.mpr complete.whole), payload_frame fits, rest]
  · have complete := complete_frame small more
    have start : (⟨frame payload ++ more, []⟩ : Channel) = .past (frame payload ++ more) 0 := rfl
    rw [start]
    obtain ⟨_, _, _, _, counted⟩ | ⟨_, answered⟩ :=
      @receive_spec ε codec texts (frame payload ++ more) 0 until_ (Nat.zero_le _) (Nat.zero_le _) rounds
    · have bound := counted patient complete
      rw [frameEnd_frame small] at bound
      omega
    · rw [answered, answer, payload_frame fits, frameEnd_frame small, List.drop_left]
      rfl

end Readers

/-! ## Control replies -/

namespace Control

variable {ε : Type} {codec : Msgpack ε} {texts : Texts ε}

/-- A reply as it goes out is readable, if its encoding is one that a machine can hold. -/
theorem replyFrame_readable (measured : codec.Measured) {reply : Reply}
    (machine : (reply.encode codec).length < 2 ^ 64) :
    ∃ payload, replyFrame codec texts reply = frame payload ∧ Readable codec texts payload := by
  by_cases large : (reply.encode codec).length > maxMessageBytes
  · refine ⟨(Reply.error ((WireError.tooLarge (reply.encode codec).length).display texts)).encode codec, ?_, ?_⟩
    · simp only [replyFrame, Client.reply, if_pos large]
    · exact .of_small (length_tooLarge measured texts machine)
  · refine ⟨reply.encode codec, ?_, .of_small (Nat.not_lt.mp large)⟩
    simp only [replyFrame, Client.reply, if_neg large]

variable (codec texts) in
/-- Everything a client is about to write is the frame of a reply. -/
def Replying (client : Client) : Prop :=
  ∀ frame sent, client.state = .writing frame sent → ∃ reply, frame = replyFrame codec texts reply

variable (codec texts) in
/-- Every connection of the table is under its descriptor, and writes nothing but a reply. -/
def Answering (table : Clients) : Prop :=
  ∀ fd client, table.pending.lookup fd = some client → client.stream.fd = fd ∧ Replying codec texts client

namespace Answering

variable {table : Clients} (answering : Answering codec texts table)

include answering

theorem insert {fd : ℕ} {client : Client} (keyed : client.stream.fd = fd) (replying : Replying codec texts client) :
    Answering codec texts ⟨table.pending.insert fd client⟩ := by
  intro other found there
  rw [SortedMap.lookup_insert] at there
  split_ifs at there with same
  · obtain rfl := Option.some.inj there
    exact ⟨keyed.trans same.symm, replying⟩
  · exact answering other found there

theorem filter (keep : ℕ → Client → Bool) : Answering codec texts ⟨table.pending.filter keep⟩ := by
  intro fd client there
  rw [SortedMap.lookup_filter, Option.filter_eq_some_iff] at there
  exact answering fd client there.1

theorem erase (fd : ℕ) : Answering codec texts ⟨table.pending.erase fd⟩ := by
  intro other client there
  rw [SortedMap.lookup_erase] at there
  split_ifs at there
  exact answering other client there

end Answering

/-- A descriptor that is ready. -/
theorem Answering.serviceSlot {s : Server} (answering : Answering codec texts s.clients) (slot : Server.Slot) :
    Answering codec texts (s.serviceSlot codec texts slot).clients := by
  cases found : s.clients.pending.lookup slot.fd with
  | none =>
    have same : s.serviceSlot codec texts slot = s := by
      simp only [Server.serviceSlot, Clients.service, found]
    rw [same]
    exact answering
  | some client =>
    obtain ⟨keyed, replying⟩ := answering slot.fd client found
    have came := serviceSlot_came codec texts found keyed
    generalize (s.serviceSlot codec texts slot).clients = after,
      (s.clients.service codec texts slot.fd slot.now slot.kernel).2.isSome = asked at came
    cases came with
    | gone _ _ => exact answering.erase slot.fd
    | reads more _ =>
      refine answering.insert keyed fun frame sent writing => ?_
      contradiction
    | writes taken _ state _ _ =>
      refine answering.insert keyed fun frame sent writing => ?_
      obtain ⟨rfl, _⟩ := State.writing.inj writing
      exact replying _ _ state
    | turns reply requested _ =>
      refine answering.insert keyed fun frame sent writing => ?_
      obtain ⟨rfl, _⟩ := State.writing.inj writing
      exact ⟨reply, rfl⟩

/-- New connections, which have written nothing. -/
theorem Answering.acceptFrom {s : Server} (answering : Answering codec texts s.clients) (now rounds : ℕ)
    (answers : List Accepted) : Answering codec texts (Server.acceptFrom now rounds s answers).clients := by
  induction rounds generalizing s answers with
  | zero => exact answering
  | succ rounds ih =>
    cases answers with
    | nil => exact answering
    | cons answer rest =>
      rw [acceptFrom_cons]
      split_ifs
      · cases answer with
        | ok fd nonblocking =>
          apply ih
          cases nonblocking with
          | false => exact answering
          | true => exact answering.insert rfl nofun
        | wouldBlock => exact answering
        | failed => exact answering
      · exact answering

theorem answering_run (ops : List Server.Op) :
    Answering codec texts ((Server.machine codec texts).run .init ops).clients := by
  have preserved (s : Server) (op : Server.Op) (answering : Answering codec texts s.clients) :
      Answering codec texts ((Server.machine codec texts).next s op).clients := by
    cases op with
    | expire now => exact answering.filter _
    | slot slot => exact answering.serviceSlot slot
    | accept now answers => exact answering.acceptFrom now acceptBatch answers
  have initial : Answering codec texts Server.init.clients := fun _ _ none => nomatch none
  exact (Server.machine codec texts).run_invariant preserved initial ops

end Control

/-! ## Snapshots -/

/-- What an interface adds to the size of a snapshot. -/
def Interface.scopeSize (i : Interface) (observed : Observed) (now : ℕ) : ℕ :=
  80 + textSize i.ifid + textSize i.link.name + textsSize ((i.dns now).servers.map IpAddr.display) +
    textsSize (i.dns now).search + textsSize ((i.dns now).ntp.map Ipv4Addr.display) +
    textsSize ((observed.addressesOf i.link.index).map Address.display) + numberSize i.metric.toNat +
    textSize (i.level observed).asStr

namespace Netd

/-- The managed interfaces with a link, in no order but the table's. -/
def reporting (n : Netd) : List Interface :=
  (n.interfaces.entries.map Prod.snd).filter fun i => i.managed ∧ i.level n.observed ≠ .absent

/-- How much there is to say. -/
def snapshotSize (n : Netd) (now : ℕ) : ℕ :=
  35 + textSize (n.hostnameSet.getD "") + countSize n.reporting.length +
    (n.reporting.map fun i => i.scopeSize n.observed now).sum

/-- The order of the interfaces says nothing about the size. -/
theorem size_snapshot (n : Netd) (now : ℕ) : (n.snapshot now).size = n.snapshotSize now := by
  have order : (n.ordered.filter fun i => i.level n.observed ≠ .absent).Perm n.reporting := by
    have sorted := (List.perm_insertionSort
      (fun first second : Interface => first.metric < second.metric ∨
        (first.metric = second.metric ∧ first.link.index ≤ second.link.index))
      ((n.interfaces.entries.map Prod.snd).filter Interface.managed)).filter
      fun i => i.level n.observed ≠ .absent
    rw [List.filter_filter] at sorted
    refine sorted.trans (.of_eq (List.filter_congr fun i _ => ?_))
    rw [Bool.decide_and, Bool.decide_eq_true, Bool.and_comm]
  rw [Snapshot.size, snapshotSize, snapshot]
  simp only [List.length_map, List.map_map]
  rw [order.length_eq, (order.map _).sum_eq]
  rfl

/-- How much an event has to say to anybody: a publish to the subscribers there are, a subscription to the one
that comes, who is told what was published last. -/
def Hub.saidSize (h : Hub) : Event → ℕ
  | .change _ _ _ => 0
  | .publish now _ => if h.netd.subscribers = [] then 0 else h.netd.snapshotSize now
  | .subscribe now nonblocking _ =>
    if nonblocking then (h.netd.lastSnapshot.map Snapshot.size).getD (h.netd.snapshotSize now) else 0

/-- An event that does not have more to say than a message holds. -/
def Hub.Small (h : Hub) (e : Event) : Prop := h.saidSize e ≤ maxMessageBytes

/-- What the subscribers were sent is what could be sent. -/
def Hub.Cached (h : Hub) : Prop := h.netd.subscribers ≠ [] → ∀ s ∈ h.netd.lastSnapshot, s.size ≤ maxMessageBytes

/-- Every frame an event writes is a snapshot of the size it has to say. -/
theorem output_snapshot (h : Hub) (e : Event) {w : Write} (member : w ∈ Hub.machine.output h e) :
    ∃ s : Snapshot, w.reply = .snapshot s ∧ s.size = h.saidSize e := by
  cases e with
  | change observed interfaces hostnameSet => exact absurd member List.not_mem_nil
  | publish now takes =>
    change w ∈ (h.netd.publish now takes).2.2 at member
    obtain ⟨_, ⟨_, _, nothing⟩ | ⟨_, _, offered⟩⟩ := publish_cases h.netd now takes
    · rw [nothing] at member
      exact absurd member List.not_mem_nil
    · rw [offered] at member
      obtain ⟨connection, subscribed, rfl⟩ := List.mem_map.mp member
      refine ⟨_, rfl, ?_⟩
      rw [Hub.saidSize, if_neg (List.ne_nil_of_mem subscribed), size_snapshot]
  | subscribe now nonblocking takes =>
    change w ∈ (h.netd.subscribe h.accepted now nonblocking takes).2 at member
    cases nonblocking with
    | false => exact absurd member List.not_mem_nil
    | true =>
      obtain rfl := List.mem_singleton.mp member
      refine ⟨_, rfl, ?_⟩
      rw [Hub.saidSize, if_pos rfl]
      cases h.netd.lastSnapshot with
      | none => exact h.netd.size_snapshot now
      | some s => rfl

/-- Small events leave nobody with more than could be sent. -/
theorem Hub.Cached.next {h : Hub} (cached : h.Cached) {e : Event} (small : h.Small e) :
    (Hub.machine.next h e).Cached := by
  cases e with
  | change observed interfaces hostnameSet => exact cached
  | publish now takes =>
    intro left s member
    obtain ⟨made, kept⟩ := publish_cases h.netd now takes
    change (h.netd.publish now takes).1.lastSnapshot = _ at made
    have subscribed : h.netd.subscribers ≠ [] := by
      intro none
      obtain ⟨_, same, _⟩ | ⟨_, same, _⟩ := kept
      · exact left (same.trans none)
      · exact left (same.trans (by rw [none]; rfl))
    change s ∈ (h.netd.publish now takes).1.lastSnapshot at member
    rw [made] at member
    obtain rfl := Option.some.inj member
    rw [size_snapshot]
    rwa [Hub.Small, Hub.saidSize, if_neg subscribed] at small
  | subscribe now nonblocking takes =>
    cases nonblocking with
    | false => exact cached
    | true =>
      have same : (Hub.machine.next h (.subscribe now true takes)).netd.lastSnapshot = h.netd.lastSnapshot := by
        cases takes <;> rfl
      intro _ s member
      rw [same] at member
      rwa [Hub.Small, Hub.saidSize, if_pos rfl, Option.mem_def.mp member] at small

/-- An event with more to say than a message holds does say it. -/
theorem Hub.Cached.speaks {h : Hub} (cached : h.Cached) {e : Event} (large : maxMessageBytes < h.saidSize e) :
    Hub.machine.output h e ≠ [] := by
  cases e with
  | change observed interfaces hostnameSet => exact absurd large (Nat.not_lt_zero _)
  | publish now takes =>
    rw [Hub.saidSize] at large
    split_ifs at large with nobody
    · exact absurd large (Nat.not_lt_zero _)
    change (h.netd.publish now takes).2.2 ≠ []
    obtain ⟨_, ⟨known, _, _⟩ | ⟨_, _, offered⟩⟩ := publish_cases h.netd now takes
    · have small := cached nobody _ known
      rw [size_snapshot] at small
      omega
    · rw [offered]
      exact fun none => nobody (List.map_eq_nil_iff.mp none)
  | subscribe now nonblocking takes =>
    cases nonblocking with
    | false => exact absurd large (Nat.not_lt_zero _)
    | true => exact List.cons_ne_nil _ _

section Frames

variable {ε : Type} {codec : Msgpack ε} (measured : codec.Measured) (texts : Texts ε)

include measured

/-- What an event that is small writes. -/
theorem Hub.Small.readable {h : Hub} {e : Event} (small : h.Small e) {w : Write}
    (member : w ∈ Hub.machine.output h e) : Readable codec texts (w.reply.encode codec) := by
  obtain ⟨s, reply, size⟩ := output_snapshot h e member
  have bounded : s.size ≤ maxMessageBytes := size.trans_le small
  rw [reply]
  apply Readable.of_small
  rw [Snapshot.length_encode measured (bounded.trans_lt (by decide))]
  exact bounded

/-- What an event that is not small writes. -/
theorem output_unreadable {h : Hub} {e : Event} (large : maxMessageBytes < h.saidSize e)
    (fits : h.saidSize e < 2 ^ 32) {w : Write} (member : w ∈ Hub.machine.output h e) :
    ¬Readable codec texts (w.reply.encode codec) := by
  obtain ⟨s, reply, size⟩ := output_snapshot h e member
  intro readable
  have small := readable.small
  rw [reply, Snapshot.length_encode measured (size.trans_lt fits), size] at small
  omega

end Frames

/-! ## Every run -/

/-- Frames of every kind. In a run whose events never have more to say than a message holds, every snapshot that
is written is readable; a control reply always is, if a machine can hold it. An event that has more to
say writes nothing that is readable, and the first such event of a run writes something. -/
theorem frames_readable {ε : Type} {codec : Msgpack ε} (measured : codec.Measured) (texts : Texts ε) :
    (∀ observed events after, Transducer.Run Hub.machine Hub.Small ⟨boot observed, 0⟩ events after →
        (∀ writes ∈ Hub.machine.outputs ⟨boot observed, 0⟩ events, ∀ w ∈ writes,
          Readable codec texts (w.reply.encode codec)) ∧
        ∀ e, maxMessageBytes < Hub.saidSize after e → Hub.machine.output after e ≠ []) ∧
      (∀ ops fd client octets sent,
        ((Control.Server.machine codec texts).run .init ops).clients.pending.lookup fd = some client →
          client.state = .writing octets sent →
            ∃ reply, octets = Control.replyFrame codec texts reply ∧
              ((reply.encode codec).length < 2 ^ 64 →
                ∃ payload, octets = frame payload ∧ Readable codec texts payload)) ∧
      ∀ h e, maxMessageBytes < Hub.saidSize h e → Hub.saidSize h e < 2 ^ 32 →
        ∀ w ∈ Hub.machine.output h e, ¬Readable codec texts (w.reply.encode codec) := by
  refine ⟨fun observed events after path => ⟨?_, fun e => ?_⟩, fun ops fd client octets sent found writing => ?_,
    fun h e large fits w member => output_unreadable measured texts large fits member⟩
  · have initial : Hub.Cached ⟨boot observed, 0⟩ := fun subscribed => absurd rfl subscribed
    exact path.forall_outputs initial (fun h e small cached => cached.next small)
      fun h e small _ w member => small.readable measured texts member
  · have initial : Hub.Cached ⟨boot observed, 0⟩ := fun subscribed => absurd rfl subscribed
    have cached : after.Cached := path.invariant initial fun h e small cached => cached.next small
    exact cached.speaks
  · obtain ⟨reply, rfl⟩ := (Control.answering_run ops fd client found).2 octets sent writing
    exact ⟨reply, rfl, fun machine => Control.replyFrame_readable measured machine⟩

/-- A link with a carrier. -/
def wire : Link where
  index := 2
  name := "eth0"
  mac := none
  up := true
  carrier := true
  loopback := false
  mtu := 1500
  linkType := 1
  kind := .ether

/-- An interface that joined a profile which names one domain. -/
def serving (domain : String) : Interface :=
  { Interface.new "eth0" wire with
    outcome := .join
      { path := "Profiles/Wired"
        enabled := true
        address := {}
        dns := { domains := [domain] } } }

/-- The link comes up, and is joined. -/
def comesUp (domain : String) : Event :=
  .change ⟨.empty, [], []⟩ (SortedMap.empty.insert 2 (serving domain)) none

theorem saidSize_comesUp (h : Hub) (subscribed : h.netd.subscribers ≠ []) (domain : String) (now : ℕ)
    (takes : ℕ → Bool) :
    (Hub.machine.next h (comesUp domain)).saidSize (.publish now takes) = 137 + textSize domain := by
  have fixed : textSize "" = 1 ∧ textSize "eth0" = 5 ∧ textSize "link" = 5 ∧ countSize 1 = 1 ∧ numberSize 100 = 1 ∧
      textsSize [] = 1 := by
    decide
  have served : textsSize [domain] = 1 + textSize domain := rfl
  have reporting : (Hub.machine.next h (comesUp domain)).netd.reporting = [serving domain] := rfl
  have scope : (serving domain).scopeSize (Hub.machine.next h (comesUp domain)).netd.observed now =
      80 + textSize "eth0" + textSize "eth0" + textsSize [] + textsSize [domain] + textsSize [] + textsSize [] +
        numberSize 100 + textSize "link" := rfl
  have hostname : (Hub.machine.next h (comesUp domain)).netd.hostnameSet.getD "" = "" := rfl
  have left : (Hub.machine.next h (comesUp domain)).netd.subscribers ≠ [] := subscribed
  rw [Hub.saidSize, if_neg left, snapshotSize, reporting, hostname, List.length_singleton, List.map_singleton,
    List.sum_singleton,
    scope]
  omega

/-- A domain of so many letters. -/
def domainOf (letters : ℕ) : String := .ofList (.replicate letters 'a')

theorem utf8ByteSize_domainOf (letters : ℕ) : (domainOf letters).utf8ByteSize = letters := by
  have one : 'a'.utf8Size = 1 := by decide
  rw [utf8ByteSize_eq, domainOf, String.toList_ofList, List.map_replicate, List.sum_replicate, one]
  exact Nat.mul_one letters

/-- Somebody who subscribed when there was nothing to say. -/
def subscribed : Hub := Hub.machine.run ⟨boot ⟨.empty, [], []⟩, 0⟩ [.publish 0 fun _ => true, .subscribe 0 true true]

/-- Once a link comes up, the subscriber is sent what there is to say. -/
theorem output_comesUp (domain : String) :
    ∃ w, Hub.machine.output (Hub.machine.next subscribed (comesUp domain)) (.publish 0 fun _ => true) = [w] := by
  have before : (Hub.machine.next subscribed (comesUp domain)).netd.lastSnapshot = some {} := rfl
  have subscribers : (Hub.machine.next subscribed (comesUp domain)).netd.subscribers = [0] := rfl
  have size := saidSize_comesUp subscribed (List.cons_ne_nil _ _) domain 0 fun _ => true
  rw [Hub.saidSize, if_neg (by rw [subscribers]; exact List.cons_ne_nil _ _), ← size_snapshot] at size
  obtain ⟨_, ⟨known, _⟩ | ⟨_, _, offered⟩⟩ :=
    publish_cases (Hub.machine.next subscribed (comesUp domain)).netd 0 fun _ => true
  · have nothing : ({} : Snapshot).size = 37 := by decide
    rw [before] at known
    rw [← Option.some.inj known] at size
    omega
  · rw [subscribers] at offered
    exact ⟨_, offered⟩

/-- A subscriber that is sent what it can read. -/
theorem short_domain_readable :
    messagepack.Measured ∧
      ∃ w ∈ (Hub.machine.outputs ⟨boot ⟨.empty, [], []⟩, 0⟩
          [.publish 0 fun _ => true, .subscribe 0 true true, comesUp "example.org", .publish 0 fun _ => true]).flatten,
        Readable messagepack plainTexts (w.reply.encode messagepack) := by
  have asks : Hub.Small (Hub.machine.next ⟨boot ⟨.empty, [], []⟩, 0⟩ (.publish 0 fun _ => true))
      (.subscribe 0 true true) := by
    change Snapshot.size {} ≤ maxMessageBytes
    decide
  have modest : (Hub.machine.next subscribed (comesUp "example.org")).Small (.publish 0 fun _ => true) := by
    have size : textSize "example.org" = 12 := by decide
    rw [Hub.Small, saidSize_comesUp subscribed (List.cons_ne_nil _ _), size]
    decide
  obtain ⟨w, output⟩ := output_comesUp "example.org"
  have member : w ∈ Hub.machine.output (Hub.machine.next subscribed (comesUp "example.org"))
      (.publish 0 fun _ => true) := by
    rw [output]
    exact List.mem_singleton_self w
  refine ⟨messagepack_measured, w, List.mem_flatten.mpr ⟨_, .tail _ (.tail _ (.tail _ (.head _))), member⟩, ?_⟩
  exact ((frames_readable messagepack_measured plainTexts).1 _ _ _
    (.cons (Nat.zero_le _) (.cons asks (.cons (Nat.zero_le _) (.cons modest (.nil _)))))).1
    _ (.tail _ (.tail _ (.tail _ (.head _)))) w member

/-- A subscriber is sent what it cannot read, where a profile names a domain that is too long. -/
theorem long_domain_unreadable :
    ∃ w ∈ (Hub.machine.outputs ⟨boot ⟨.empty, [], []⟩, 0⟩
        [.publish 0 fun _ => true, .subscribe 0 true true, comesUp (domainOf 65536), .publish 0 fun _ => true]).flatten,
      ¬Readable messagepack plainTexts (w.reply.encode messagepack) := by
  have size : textSize (domainOf 65536) = 65541 := by
    rw [textSize, utf8ByteSize_domainOf]
    rfl
  generalize domainOf 65536 = domain at size
  have fresh := saidSize_comesUp subscribed (List.cons_ne_nil _ _) domain 0 fun _ => true
  have ceiling : maxMessageBytes = 65536 := rfl
  obtain ⟨w, output⟩ := output_comesUp domain
  have member : w ∈ Hub.machine.output (Hub.machine.next subscribed (comesUp domain)) (.publish 0 fun _ => true) := by
    rw [output]
    exact List.mem_singleton_self w
  refine ⟨w, List.mem_flatten.mpr ⟨_, ?_, member⟩,
    output_unreadable messagepack_measured plainTexts (by omega) (by omega) member⟩
  exact .tail _ (.tail _ (.tail _ (.head _)))

end Netd

end Netd.Model
