import Netd.Machine.Mirror
import Netd.Model.Rtnl

/-! # What netd believes is what the kernel has

The daemon as a mirror of the kernel's tables: it consumes multicast events and then dumps, with the tables
changing at any moment in between. A dump whose table changes while it is read is reported as interrupted and
fails, so a request that succeeds reads its table as it was at one instant.
-/

namespace Netd.Model.Netlink

section Current

variable (isWireless : String → Bool)

/-- What `recv` on the event socket returns. A notification is at least a header long, and a queue that
overran says `ENOBUFS`. -/
def recvResult : Notice → Except Wire.ErrorKind ℕ
  | .item => .ok 16
  | .interrupted => .error .interrupted
  | .nothing => .error .wouldBlock
  | .overrun => .error .other

/-- The daemon's copy of the kernel's tables. Every table that is dumped is announced in a group that was
joined. -/
def kernelMirror : Mirror (fun table : Table => List table.Message) Observed where
  parts := dumpOrder
  posts table := memberships.contains table.group
  blank := Observed.default
  read table messages out := dumpTable isWireless out table messages
  drain any notice := drainRound any (recvResult notice)
  posts_parts := by decide
  drain_item _ := rfl
  drain_interrupted _ := rfl
  drain_nothing _ := rfl
  drain_overrun _ := rfl

/-- A dump of tables that hold still is the image of them. -/
theorem dump_image {ε : Type*} (tables : (table : Table) → List table.Message) :
    (dump isWireless fun table => (.ok (tables table) : Except ε _)) = .ok ((kernelMirror isWireless).image tables) := rfl

/-- However the kernel's tables change, while events are consumed, between the requests of a dump, or at any
other time, and whether or not the event queue overruns: when the loop polls with no event waiting and the
last dump did not fail, what netd believes is what a dump made now would give. And unless a failed dump has
left it with nothing to wake it, it comes to that state once the tables stay as they are. -/
theorem observed_current {ε : Type*} (tables : (table : Table) → List table.Message)
    (ops : List (Mirror.Op fun table : Table => List table.Message)) :
    let m := kernelMirror isWireless
    let s := m.machine.run (m.start tables Observed.default) ops
    (s.phase = .idle → s.pending = false → s.failed = false →
        (dump isWireless fun table => (.ok (s.source table) : Except ε _)) = .ok s.copy) ∧
      (Mirror.Live s → ∀ rounds, m.distance s ≤ rounds →
        let t := m.proceed^[rounds] s
        t.phase = .idle ∧ t.pending = false ∧
          (dump isWireless fun table => (.ok (s.source table) : Except ε _)) = .ok t.copy) := by
  intro m s
  have current : m.Current s := m.run_current tables Observed.default ops
  refine ⟨fun idle quiet fine => ?_, fun live rounds enough => ?_⟩
  · have settled := Mirror.settled_of_rest current (fun _ _ => fine) idle quiet
    rw [settled.copy]
    exact dump_image isWireless s.source
  · have settled := Mirror.settles current live enough
    refine ⟨settled.idle, settled.quiet, ?_⟩
    rw [settled.copy]
    exact dump_image isWireless s.source

end Current

end Netd.Model.Netlink
