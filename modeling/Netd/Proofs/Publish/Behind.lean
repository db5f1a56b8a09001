import Mathlib.Data.List.Chain
import Netd.Model.Publish

/-! # No subscriber is left behind

The record of a run is every frame that was offered to the kernel. A connection that is still a
subscriber took every frame it was offered, the last of them when the cached snapshot was made or when
it subscribed after that, so the last snapshot it received is the cached one. A snapshot is offered to
subscribers only where it differs from the cached one, so no two in a row are the same.
-/

set_option linter.dupNamespace false

namespace Netd.Model.Netd

open Wire

/-- The snapshot that a write brings to a connection, if the whole of it went out. -/
def Write.brings (connection : ℕ) (w : Write) : Option Snapshot :=
  match w.reply with
  | .snapshot s => if w.connection = connection ∧ w.whole = true then some s else none
  | _ => none

/-- The snapshots a connection received, in order. -/
def received (connection : ℕ) (writes : List Write) : List Snapshot := writes.filterMap (Write.brings connection)

theorem received_append (connection : ℕ) (first second : List Write) :
    received connection (first ++ second) = received connection first ++ received connection second :=
  List.filterMap_append

/-- A connection that nothing was written to received nothing. -/
theorem received_eq_nil {connection : ℕ} {writes : List Write} (other : ∀ w ∈ writes, w.connection ≠ connection) :
    received connection writes = [] := by
  apply List.filterMap_eq_nil_iff.mpr
  intro w member
  unfold Write.brings
  cases w.reply with
  | snapshot s => exact if_neg fun both => other w member both.1
  | _ => rfl

theorem received_singleton (connection : ℕ) (s : Snapshot) (takes : Bool) :
    received connection [⟨connection, .snapshot s, takes⟩] = if takes then [s] else [] := by
  cases takes <;> simp [received, Write.brings]

/-! ## What each operation writes -/

/-- One frame to every subscriber brings each that takes it one snapshot. -/
theorem received_offers {subscribers : List ℕ} (distinct : subscribers.Nodup) (connection : ℕ) (s : Snapshot)
    (takes : ℕ → Bool) :
    received connection (subscribers.map fun other => ⟨other, .snapshot s, takes other⟩) =
      if connection ∈ subscribers.filter takes then [s] else [] := by
  induction subscribers with
  | nil => rfl
  | cons first rest ih =>
    obtain ⟨absent, distinct⟩ := List.nodup_cons.mp distinct
    rw [List.map_cons, ← List.singleton_append, received_append, ih distinct]
    by_cases same : connection = first
    · subst same
      have gone : connection ∉ rest.filter takes := fun member => absent (List.mem_filter.mp member).1
      rw [received_singleton, if_neg gone, List.append_nil]
      refine if_congr ?_ rfl rfl
      rw [List.mem_filter]
      exact ⟨fun taken => ⟨List.mem_cons_self, taken⟩, fun both => both.2⟩
    · rw [received_eq_nil (by simpa using fun h => same h.symm), List.nil_append]
      refine if_congr ?_ rfl rfl
      rw [List.mem_filter, List.mem_filter, List.mem_cons]
      exact ⟨fun both => ⟨.inr both.1, both.2⟩, fun both => ⟨both.1.resolve_left same, both.2⟩⟩

/-- What a publish makes of the daemon: nothing is new, or there is a new snapshot that every
subscriber is offered. -/
theorem publish_cases (n : Netd) (now : ℕ) (takes : ℕ → Bool) :
    (n.publish now takes).1.lastSnapshot = some (n.snapshot now) ∧
      ((n.lastSnapshot = some (n.snapshot now) ∧ (n.publish now takes).1.subscribers = n.subscribers ∧
          (n.publish now takes).2.2 = []) ∨
        (n.lastSnapshot ≠ some (n.snapshot now) ∧
          (n.publish now takes).1.subscribers = n.subscribers.filter takes ∧
          (n.publish now takes).2.2 =
            n.subscribers.map fun connection => ⟨connection, .snapshot (n.snapshot now), takes connection⟩)) := by
  -- the level is published first, and a snapshot does not depend on it
  have level : ∃ lastLevel news, n.publishLevel = ({ n with lastLevel }, news) := by
    unfold publishLevel
    split_ifs
    · exact ⟨n.lastLevel, none, rfl⟩
    · exact ⟨_, _, rfl⟩
  obtain ⟨lastLevel, news, same⟩ := level
  have snapshot : ({ n with lastLevel } : Netd).snapshot now = n.snapshot now := rfl
  rw [publish, same]
  dsimp only
  rw [snapshot]
  by_cases known : n.lastSnapshot = some (n.snapshot now)
  · rw [if_pos known]
    exact ⟨known, .inl ⟨known, rfl, rfl⟩⟩
  · rw [if_neg known]
    exact ⟨rfl, .inr ⟨known, rfl, rfl⟩⟩

/-! ## The invariant -/

/-- Of a hub and every frame it has offered. -/
structure Current (h : Hub) (writes : List Write) : Prop where
  cached : h.netd.lastSnapshot.isSome
  distinct : h.netd.subscribers.Nodup
  numbered : ∀ connection ∈ h.netd.subscribers, connection < h.accepted
  written : ∀ w ∈ writes, w.connection < h.accepted
  upToDate : ∀ connection ∈ h.netd.subscribers,
    (received connection writes).getLast? = h.netd.lastSnapshot
  changing : ∀ connection, (received connection writes).IsChain (· ≠ ·)

namespace Current

variable {h : Hub} {writes : List Write} (current : Current h writes)

include current

/-- Whatever else happens leaves subscribers and the cached snapshot alone. -/
theorem change {netd : Netd} (subscribers : netd.subscribers = h.netd.subscribers)
    (lastSnapshot : netd.lastSnapshot = h.netd.lastSnapshot) : Current ⟨netd, h.accepted⟩ writes where
  cached := lastSnapshot ▸ current.cached
  distinct := subscribers ▸ current.distinct
  numbered := subscribers ▸ current.numbered
  written := current.written
  upToDate := by
    rw [subscribers, lastSnapshot]
    exact current.upToDate
  changing := current.changing

theorem publish (now : ℕ) (takes : ℕ → Bool) :
    Current ⟨(h.netd.publish now takes).1, h.accepted⟩ (writes ++ (h.netd.publish now takes).2.2) := by
  obtain ⟨made, ⟨known, same, nothing⟩ | ⟨news, kept, offered⟩⟩ := publish_cases h.netd now takes
  · rw [nothing, List.append_nil]
    exact current.change same (made.trans known.symm)
  · have got (connection : ℕ) : received connection (writes ++ (h.netd.publish now takes).2.2) =
        received connection writes ++
          if connection ∈ h.netd.subscribers.filter takes then [h.netd.snapshot now] else [] := by
      rw [received_append, offered, received_offers current.distinct]
    refine ⟨by rw [made]; rfl, ?_, ?_, ?_, ?_, ?_⟩
    · rw [kept]
      exact current.distinct.filter _
    · intro connection member
      rw [kept] at member
      exact current.numbered connection (List.mem_filter.mp member).1
    · intro w member
      obtain before | now := List.mem_append.mp member
      · exact current.written w before
      · rw [offered] at now
        obtain ⟨connection, subscribed, rfl⟩ := List.mem_map.mp now
        exact current.numbered connection subscribed
    · intro connection member
      rw [kept] at member
      rw [got, if_pos member, made, List.getLast?_append]
      rfl
    · intro connection
      rw [got]
      split_ifs with member
      · have last := current.upToDate connection (List.mem_filter.mp member).1
        refine List.isChain_append.mpr ⟨current.changing connection, .singleton _, ?_⟩
        intro previous isLast next isNext
        rw [last] at isLast
        obtain rfl := Option.some.inj isNext
        exact fun same => news (same ▸ isLast)
      · rw [List.append_nil]
        exact current.changing connection

omit current in
/-- More frames to a connection that nobody had are nothing to the others. -/
theorem received_others {connection : ℕ} (other : connection ≠ h.accepted) (s : Snapshot) (takes : Bool) :
    received connection (writes ++ [⟨h.accepted, .snapshot s, takes⟩]) = received connection writes := by
  have nothing : received connection [⟨h.accepted, .snapshot s, takes⟩] = [] := by
    apply received_eq_nil
    intro w member
    obtain rfl := List.mem_singleton.mp member
    exact other.symm
  rw [received_append, nothing, List.append_nil]

theorem received_fresh (s : Snapshot) (takes : Bool) :
    received h.accepted (writes ++ [⟨h.accepted, .snapshot s, takes⟩]) = if takes then [s] else [] := by
  rw [received_append, received_eq_nil fun w member => (current.written w member).ne, List.nil_append,
    received_singleton]

/-- A frame on a new connection, which becomes a subscriber if it takes it. -/
theorem offer {s : Snapshot} (cached : h.netd.lastSnapshot = some s) (takes : Bool) :
    Current ⟨if takes then { h.netd with subscribers := h.netd.subscribers ++ [h.accepted] } else h.netd,
      h.accepted + 1⟩ (writes ++ [⟨h.accepted, .snapshot s, takes⟩]) := by
  have fresh : h.accepted ∉ h.netd.subscribers := fun member => (current.numbered _ member).ne rfl
  have others {connection : ℕ} (member : connection ∈ h.netd.subscribers) : connection ≠ h.accepted :=
    (current.numbered connection member).ne
  have written : ∀ w ∈ writes ++ [⟨h.accepted, .snapshot s, takes⟩], w.connection < h.accepted + 1 := by
    intro w member
    obtain before | now := List.mem_append.mp member
    · exact Nat.lt_succ_of_lt (current.written w before)
    · obtain rfl := List.mem_singleton.mp now
      exact Nat.lt_succ_self _
  have changing (connection : ℕ) :
      (received connection (writes ++ [⟨h.accepted, .snapshot s, takes⟩])).IsChain (· ≠ ·) := by
    by_cases same : connection = h.accepted
    · rw [same, current.received_fresh]
      split_ifs
      · exact .singleton _
      · exact .nil
    · rw [received_others same]
      exact current.changing connection
  have upToDate (connection : ℕ) (member : connection ∈ h.netd.subscribers) :
      (received connection (writes ++ [⟨h.accepted, .snapshot s, takes⟩])).getLast? = h.netd.lastSnapshot := by
    rw [received_others (others member)]
    exact current.upToDate connection member
  have numbered (connection : ℕ) (member : connection ∈ h.netd.subscribers) : connection < h.accepted + 1 :=
    Nat.lt_succ_of_lt (current.numbered connection member)
  cases takes with
  | false => exact ⟨current.cached, current.distinct, numbered, written, upToDate, changing⟩
  | true =>
    refine ⟨current.cached, ?_, ?_, written, ?_, changing⟩
    · exact List.nodup_append.mpr ⟨current.distinct, List.nodup_singleton _, fun first member second last same =>
        fresh (List.mem_singleton.mp last ▸ same ▸ member)⟩
    · intro connection member
      obtain before | last := List.mem_append.mp member
      · exact numbered connection before
      · exact List.mem_singleton.mp last ▸ Nat.lt_succ_self _
    · intro connection member
      obtain before | last := List.mem_append.mp member
      · exact upToDate connection before
      · rw [List.mem_singleton.mp last, current.received_fresh]
        exact cached.symm

theorem subscribe (now : ℕ) (nonblocking takes : Bool) :
    Current ⟨(h.netd.subscribe h.accepted now nonblocking takes).1, h.accepted + 1⟩
      (writes ++ (h.netd.subscribe h.accepted now nonblocking takes).2) := by
  obtain ⟨s, cached⟩ := Option.isSome_iff_exists.mp current.cached
  have served : h.netd.lastSnapshot.getD (h.netd.snapshot now) = s := by rw [cached, Option.getD_some]
  rw [Netd.subscribe, served]
  cases nonblocking with
  | false =>
    rw [if_neg Bool.false_ne_true, List.append_nil]
    exact ⟨current.cached, current.distinct, fun _ member => Nat.lt_succ_of_lt (current.numbered _ member),
      fun _ member => Nat.lt_succ_of_lt (current.written _ member), current.upToDate, current.changing⟩
  | true => exact current.offer cached takes

/-- One event. -/
theorem step (e : Event) : Current (Hub.machine.next h e) (writes ++ Hub.machine.output h e) := by
  cases e with
  | change observed interfaces hostnameSet =>
    have silent : Hub.machine.output h (.change observed interfaces hostnameSet) = [] := rfl
    rw [silent, List.append_nil]
    exact current.change rfl rfl
  | publish now takes => exact current.publish now takes
  | subscribe now nonblocking takes => exact current.subscribe now nonblocking takes

/-- Any events. -/
theorem run (events : List Event) :
    Current (Hub.machine.run h events) (writes ++ (Hub.machine.outputs h events).flatten) := by
  induction events generalizing h writes with
  | nil => rwa [Transducer.outputs, List.flatten_nil, List.append_nil]
  | cons e rest ih =>
    rw [Transducer.outputs, List.flatten_cons, ← List.append_assoc]
    exact ih (current.step e)

/-- Who is a subscriber after an event: who was one and took what it was offered, and who subscribed and took
its first frame. -/
theorem retained (e : Event) (connection : ℕ) :
    connection ∈ (Hub.machine.next h e).netd.subscribers ↔
      (connection ∈ h.netd.subscribers ∧
          ∀ w ∈ Hub.machine.output h e, w.connection = connection → w.whole = true) ∨
        connection = h.accepted ∧ ∃ now, e = .subscribe now true true := by
  cases e with
  | change observed interfaces hostnameSet =>
    have silent : Hub.machine.output h (.change observed interfaces hostnameSet) = [] := rfl
    have same : (Hub.machine.next h (.change observed interfaces hostnameSet)).netd.subscribers =
        h.netd.subscribers := rfl
    simp [silent, same]
  | publish now takes =>
    have next : (Hub.machine.next h (.publish now takes)).netd = (h.netd.publish now takes).1 := rfl
    have output : Hub.machine.output h (.publish now takes) = (h.netd.publish now takes).2.2 := rfl
    rw [next, output]
    obtain ⟨_, ⟨_, same, nothing⟩ | ⟨_, kept, offered⟩⟩ := publish_cases h.netd now takes
    · simp [same, nothing]
    · rw [kept, offered, List.mem_filter]
      refine ⟨fun ⟨member, taken⟩ => .inl ⟨member, fun w written own => ?_⟩, ?_⟩
      · obtain ⟨other, _, rfl⟩ := List.mem_map.mp written
        obtain rfl : other = connection := own
        exact taken
      · rintro (⟨member, whole⟩ | ⟨_, _, other⟩)
        · exact ⟨member, whole _ (List.mem_map_of_mem member) rfl⟩
        · cases other
  | subscribe now nonblocking takes =>
    have fresh : h.accepted ∉ h.netd.subscribers := fun member => (current.numbered _ member).ne rfl
    have next : (Hub.machine.next h (.subscribe now nonblocking takes)).netd =
        (h.netd.subscribe h.accepted now nonblocking takes).1 := rfl
    have output : Hub.machine.output h (.subscribe now nonblocking takes) =
        (h.netd.subscribe h.accepted now nonblocking takes).2 := rfl
    rw [next, output, Netd.subscribe]
    cases nonblocking with
    | false => simp
    | true =>
      cases takes with
      | false =>
        have other : connection ∈ h.netd.subscribers → h.accepted ≠ connection := by
          rintro member rfl
          exact fresh member
        simpa using other
      | true => simp

end Current

/-! ## Every run -/

/-- The daemon when its first pass is over: what that pass found, and the snapshot it published. -/
def started (observed : Observed) (interfaces : SortedMap U32 Interface) (hostnameSet : Option String) (now : ℕ) :
    Hub where
  netd := ({ boot observed with interfaces, hostnameSet }.publish now fun _ => true).1
  accepted := 0

/-- Before anybody has subscribed, nobody is left behind. -/
theorem started_current (observed : Observed) (interfaces : SortedMap U32 Interface) (hostnameSet : Option String)
    (now : ℕ) : Current (started observed interfaces hostnameSet now) [] := by
  obtain ⟨made, ⟨_, same, _⟩ | ⟨_, kept, _⟩⟩ :=
    publish_cases { boot observed with interfaces, hostnameSet } now fun _ => true
  · have none : (started observed interfaces hostnameSet now).netd.subscribers = [] := same
    exact ⟨by rw [started, made]; rfl, by rw [none]; exact .nil, by rw [none]; exact nofun, nofun,
      by rw [none]; exact nofun, fun _ => .nil⟩
  · have none : (started observed interfaces hostnameSet now).netd.subscribers = [] := kept
    exact ⟨by rw [started, made]; rfl, by rw [none]; exact .nil, by rw [none]; exact nofun, nofun,
      by rw [none]; exact nofun, fun _ => .nil⟩

/-- Whatever happens once the first pass is over: every subscriber that is left has the cached snapshot as
the last it received, no connection receives the same snapshot twice in a row, and a publish caches
the snapshot it makes. A subscriber is left while it takes what it is offered, and a connection that subscribes
and takes its first frame becomes one. -/
theorem subscribers_up_to_date (observed : Observed) (interfaces : SortedMap U32 Interface)
    (hostnameSet : Option String) (now : ℕ) (events : List Event) :
    (∀ connection ∈ (Hub.machine.run (started observed interfaces hostnameSet now) events).netd.subscribers,
        (received connection
          (Hub.machine.outputs (started observed interfaces hostnameSet now) events).flatten).getLast? =
          (Hub.machine.run (started observed interfaces hostnameSet now) events).netd.lastSnapshot) ∧
      (∀ connection, (received connection
        (Hub.machine.outputs (started observed interfaces hostnameSet now) events).flatten).IsChain (· ≠ ·)) ∧
      (Hub.machine.run (started observed interfaces hostnameSet now) events).netd.lastSnapshot.isSome ∧
      (∀ later takes,
        ((Hub.machine.run (started observed interfaces hostnameSet now) events).netd.publish later
          takes).1.lastSnapshot =
        some ((Hub.machine.run (started observed interfaces hostnameSet now) events).netd.snapshot later)) ∧
      let h := Hub.machine.run (started observed interfaces hostnameSet now) events
      ∀ e connection, connection ∈ (Hub.machine.next h e).netd.subscribers ↔
        (connection ∈ h.netd.subscribers ∧
            ∀ w ∈ Hub.machine.output h e, w.connection = connection → w.whole = true) ∨
          connection = h.accepted ∧ ∃ now, e = .subscribe now true true := by
  have current := (started_current observed interfaces hostnameSet now).run events
  rw [List.nil_append] at current
  exact ⟨current.upToDate, current.changing, current.cached, fun later takes =>
    (publish_cases _ later takes).1, current.retained⟩

end Netd.Model.Netd
