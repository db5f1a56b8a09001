import Mathlib.Data.List.Induction
import Mathlib.Logic.Function.Iterate
import Netd.Machine.Transducer

/-! # Copies of a source that changes underneath

A source has parts that change on their own, and each change posts a notification to a queue that may
overrun. A mirror that is woken consumes the queue and then reads the parts one after another, each at an
instant of its own. Consuming first and reading afterwards is what makes the copy good: a change that a
reading did not see is one whose notification is still there.
-/

/-- What a nonblocking queue says when it is read. -/
inductive Notice where
  | item
  | interrupted
  | nothing
  | overrun
deriving DecidableEq, Repr

/-- How a mirror reads its source: the parts in their order, which of them post notifications, the copy
that a reading begins with, what a part adds to it, and one round of the loop that consumes notifications,
given whether there was one before (what it knows after it, and whether it leaves the loop). -/
structure Mirror {ι : Type*} (ν : ι → Type*) (κ : Type*) where
  parts : List ι
  posts : ι → Bool
  blank : κ
  read : (part : ι) → ν part → κ → κ
  drain : Bool → Notice → Bool × Bool
  posts_parts : ∀ part ∈ parts, posts part = true
  drain_item : ∀ any, drain any .item = (true, false)
  drain_interrupted : ∀ any, drain any .interrupted = (any, false)
  drain_nothing : ∀ any, drain any .nothing = (any, true)
  drain_overrun : ∀ any, drain any .overrun = (true, true)

namespace Mirror

/-- What the mirror is about: nothing, consuming notifications, or reading what is left of the parts. -/
inductive Phase (ι κ : Type*) where
  | idle
  | draining (any : Bool)
  | reading (left : List ι) (copy : κ)

structure State {ι : Type*} (ν : ι → Type*) (κ : Type*) where
  source : (part : ι) → ν part
  queued : ℕ
  overrun : Bool
  copy : κ
  failed : Bool
  phase : Phase ι κ

/-- What happens: a part changes, where the queue may have no room for the notification; the mirror is
woken, reads the queue, reads a part, or begins to read without being woken. -/
inductive Op {ι : Type*} (ν : ι → Type*) where
  | change (part : ι) (value : ν part) (room : Bool)
  | wake
  | recv (interrupted : Bool)
  | readPart (succeeds : Bool)
  | refresh

section Steps

variable {ι : Type*} {ν : ι → Type*} {κ : Type*}

namespace State

/-- There is something in the queue for a poll to find. -/
def pending (s : State ν κ) : Bool := s.overrun || decide (0 < s.queued)

/-- What the queue says, and what is left of it. -/
def notice (s : State ν κ) (interrupted : Bool) : Notice × State ν κ :=
  if interrupted then (.interrupted, s)
  else if s.overrun then (.overrun, { s with overrun := false })
  else if 0 < s.queued then (.item, { s with queued := s.queued - 1 })
  else (.nothing, s)

end State

variable (m : Mirror ν κ)

/-- The queue after a change of a part. -/
def post (s : State ν κ) (part : ι) (room : Bool) : State ν κ :=
  if m.posts part then
    if room then { s with queued := s.queued + 1 } else { s with overrun := true }
  else s

/-- Where the mirror goes on when the queue is consumed. -/
def drained (any : Bool) : Phase ι κ := if any then .reading m.parts m.blank else .idle

/-- One round of consuming the queue. -/
def recv (s : State ν κ) (any interrupted : Bool) : State ν κ :=
  let answer := s.notice interrupted
  let round := m.drain any answer.1
  { answer.2 with phase := if round.2 then m.drained round.1 else .draining round.1 }

/-- One part is read, or the reading is complete. -/
def readPart (s : State ν κ) (copy : κ) (succeeds : Bool) : List ι → State ν κ
  | [] => { s with copy, failed := false, phase := .idle }
  | part :: left =>
    if succeeds then { s with phase := .reading left (m.read part (s.source part) copy) }
    else { s with failed := true, phase := .idle }

/-- What reading these parts of a source at one instant gives. -/
def copyOf (source : (part : ι) → ν part) (parts : List ι) : κ :=
  parts.foldl (fun copy part => m.read part (source part) copy) m.blank

/-- The source as a reading of all of it at one instant gives it. -/
def image (source : (part : ι) → ν part) : κ := m.copyOf source m.parts

theorem copyOf_append (source : (part : ι) → ν part) (parts : List ι) (part : ι) :
    m.copyOf source (parts ++ [part]) = m.read part (source part) (m.copyOf source parts) := by
  rw [copyOf, copyOf, List.foldl_append, List.foldl_cons, List.foldl_nil]

/-- What holds between the source and the mirror, by what it is about. -/
def CurrentAt (source : (part : ι) → ν part) (pending failed : Bool) (copy : κ) : Phase ι κ → Prop
  | .idle => pending = true ∨ failed = true ∨ copy = m.image source
  | .draining any => pending = true ∨ any = true
  | .reading left partly => ∃ done, m.parts = done ++ left ∧ (pending = true ∨ partly = m.copyOf source done)

/-- What holds of a mirror at any time. Only a reading that failed leaves a copy that is neither good nor
about to be made again. -/
def Current (s : State ν κ) : Prop := m.CurrentAt s.source s.pending s.failed s.copy s.phase

theorem pending_post {part : ι} (posts : m.posts part = true) (room : Bool) (s : State ν κ) :
    (m.post s part room).pending = true := by
  rw [post, if_pos posts]
  cases room
  · rfl
  · simp [State.pending]

theorem post_frame (part : ι) (room : Bool) (s : State ν κ) :
    (m.post s part room).phase = s.phase ∧ (m.post s part room).copy = s.copy ∧
      (m.post s part room).failed = s.failed ∧ (s.pending = true → (m.post s part room).pending = true) := by
  rw [post]
  split_ifs
  · exact ⟨rfl, rfl, rfl, fun _ => by simp [State.pending]⟩
  · exact ⟨rfl, rfl, rfl, fun _ => rfl⟩
  · exact ⟨rfl, rfl, rfl, id⟩

/-- What a round of consuming the queue does, by what the queue says. -/
theorem recv_eq (s : State ν κ) (any interrupted : Bool) :
    m.recv s any interrupted =
      if interrupted then { s with phase := .draining any }
      else if s.overrun then { s with overrun := false, phase := .reading m.parts m.blank }
      else if 0 < s.queued then { s with queued := s.queued - 1, phase := .draining true }
      else { s with phase := m.drained any } := by
  rw [recv, State.notice]
  by_cases stopped : interrupted = true
  · simp only [if_pos stopped, m.drain_interrupted, Bool.false_eq_true, ↓reduceIte]
  rw [if_neg stopped, if_neg stopped]
  by_cases overrun : s.overrun = true
  · simp only [if_pos overrun, m.drain_overrun, drained, ↓reduceIte]
  rw [if_neg overrun, if_neg overrun]
  by_cases queued : 0 < s.queued
  · simp only [if_pos queued, m.drain_item, Bool.false_eq_true, ↓reduceIte]
  · simp only [if_neg queued, m.drain_nothing, ↓reduceIte]

/-! ## One step -/

section Rounds

variable {m} {s : State ν κ}

/-- Who leaves the loop without having found anything would find nothing now. -/
theorem current_recv {any : Bool} (waiting : s.pending = true ∨ any = true) (interrupted : Bool) :
    m.Current (m.recv s any interrupted) := by
  rw [m.recv_eq]
  split_ifs with interrupted overrun queued
  · exact waiting
  · exact ⟨[], rfl, .inr rfl⟩
  · exact .inr rfl
  · have empty : s.pending = false := by
      rw [State.pending, Bool.eq_false_iff.mpr overrun, Bool.false_or, decide_eq_false_iff_not]
      exact queued
    obtain rfl := waiting.resolve_left fun pending => Bool.false_ne_true (empty.symm.trans pending)
    exact ⟨[], rfl, .inr rfl⟩

theorem current_readPart {left : List ι} {copy : κ} (current : m.CurrentAt s.source s.pending s.failed s.copy (.reading left copy))
    (succeeds : Bool) : m.Current (m.readPart s copy succeeds left) := by
  obtain ⟨done, parts, waiting⟩ := current
  cases left with
  | nil =>
    rw [List.append_nil] at parts
    refine waiting.imp_right fun good => .inr ?_
    rw [image, parts]
    exact good
  | cons part left =>
    cases succeeds with
    | false => exact .inr (.inl rfl)
    | true =>
      refine ⟨done ++ [part], by rw [parts, List.append_assoc]; rfl, waiting.imp_right fun good => ?_⟩
      change m.read part (s.source part) copy = m.copyOf s.source (done ++ [part])
      rw [m.copyOf_append, good]

end Rounds

variable [DecidableEq ι]

def step (s : State ν κ) : Op ν → State ν κ
  | .change part value room => { m.post s part room with source := Function.update s.source part value }
  | .wake =>
    match s.phase with
    | .idle => if s.pending then { s with phase := .draining false } else s
    | .draining _ | .reading _ _ => s
  | .recv interrupted =>
    match s.phase with
    | .draining any => m.recv s any interrupted
    | .idle | .reading _ _ => s
  | .readPart succeeds =>
    match s.phase with
    | .reading left copy => m.readPart s copy succeeds left
    | .idle | .draining _ => s
  | .refresh =>
    match s.phase with
    | .idle => { s with phase := .reading m.parts m.blank }
    | .draining _ | .reading _ _ => s

def machine : Transducer (State ν κ) (Op ν) Unit where
  step s op := (m.step s op, ())

/-- A part that is not read does not matter. -/
theorem copyOf_update {parts : List ι} {part : ι} (elsewhere : part ∉ parts) (source : (part : ι) → ν part)
    (value : ν part) : m.copyOf (Function.update source part value) parts = m.copyOf source parts := by
  induction parts using List.reverseRecOn with
  | nil => rfl
  | append_singleton parts other ih =>
    rw [List.mem_append, List.mem_singleton, not_or] at elsewhere
    rw [copyOf_append, copyOf_append, ih elsewhere.1, Function.update_of_ne (Ne.symm elsewhere.2)]

variable {m} {s : State ν κ}

/-- A change of a part that is read is there to be found; any other does not matter. -/
theorem current_change (current : m.Current s) (part : ι) (value : ν part) (room : Bool) :
    m.Current (m.step s (.change part value room)) := by
  obtain ⟨phase, copy, failed, kept⟩ := m.post_frame part room s
  change m.CurrentAt (Function.update s.source part value) (m.post s part room).pending
    (m.post s part room).failed (m.post s part room).copy (m.post s part room).phase
  rw [phase, copy, failed]
  by_cases read : part ∈ m.parts
  · rw [m.pending_post (m.posts_parts part read)]
    unfold Current at current
    cases now : s.phase with
    | idle => exact .inl rfl
    | draining any => exact .inl rfl
    | reading left partly =>
      rw [now] at current
      obtain ⟨done, parts, _⟩ := current
      exact ⟨done, parts, .inl rfl⟩
  · unfold Current at current
    cases now : s.phase with
    | idle =>
      rw [now] at current
      obtain pending | failed | good := current
      · exact .inl (kept pending)
      · exact .inr (.inl failed)
      · refine .inr (.inr (good.trans ?_))
        rw [image, image, m.copyOf_update read]
    | draining any =>
      rw [now] at current
      exact current.imp_left kept
    | reading left partly =>
      rw [now] at current
      obtain ⟨done, parts, waiting⟩ := current
      have elsewhere : part ∉ done := fun member => read (parts ▸ List.mem_append_left left member)
      refine ⟨done, parts, waiting.imp kept fun good => ?_⟩
      rw [good, m.copyOf_update elsewhere]

/-- Every step keeps the copy good, or a notification waiting. -/
theorem current_step (current : m.Current s) (op : Op ν) : m.Current (m.step s op) := by
  cases op with
  | change part value room => exact current_change current part value room
  | wake =>
    rw [step]
    split
    · split_ifs with pending
      · exact .inl pending
      · exact current
    · exact current
    · exact current
  | recv interrupted =>
    rw [step]
    split
    · next now =>
      unfold Current at current
      rw [now] at current
      exact current_recv current interrupted
    · exact current
    · exact current
  | readPart succeeds =>
    rw [step]
    split
    · next now =>
      unfold Current at current
      rw [now] at current
      exact current_readPart current succeeds
    · exact current
    · exact current
  | refresh =>
    rw [step]
    split
    · exact ⟨[], rfl, .inr rfl⟩
    · exact current
    · exact current

/-- A mirror that begins by reading everything. -/
def start (source : (part : ι) → ν part) (copy : κ) : State ν κ where
  source
  queued := 0
  overrun := false
  copy
  failed := false
  phase := .reading m.parts m.blank

variable (m) in
theorem run_current (source : (part : ι) → ν part) (copy : κ) (ops : List (Op ν)) :
    m.Current (m.machine.run (m.start source copy) ops) := by
  have preserved (s : State ν κ) (op : Op ν) (current : m.Current s) : m.Current (m.machine.next s op) :=
    current_step current op
  have initial : m.Current (m.start source copy) := ⟨[], rfl, .inr rfl⟩
  exact m.machine.run_invariant preserved initial ops

/-! ## A source that comes to rest -/

/-- What the mirror does next, where nothing interrupts it and nothing fails. -/
def turn : Phase ι κ → Op ν
  | .idle => .wake
  | .draining _ => .recv false
  | .reading _ _ => .readPart true

variable (m) in
def proceed (s : State ν κ) : State ν κ := m.step s (turn s.phase)

/-- A mirror that is at rest after a reading that failed is not woken by what it missed. -/
def Live (s : State ν κ) : Prop := s.phase = .idle → s.pending = false → s.failed = false

/-- How many notifications there are to be found. -/
def State.notices (s : State ν κ) : ℕ := s.queued + if s.overrun then 1 else 0

variable (m) in
/-- How far the mirror is from rest. -/
def distance (s : State ν κ) : ℕ :=
  (m.parts.length + 4) * s.notices +
    match s.phase with
    | .idle => 1
    | .draining false => 0
    | .draining true => m.parts.length + 3
    | .reading left _ => left.length + 2

omit [DecidableEq ι] in
theorem pending_iff : s.pending = true ↔ 0 < s.notices := by
  rw [State.pending, State.notices]
  cases s.overrun <;> simp

theorem proceed_idle (now : s.phase = .idle) :
    m.proceed s = if s.pending then { s with phase := .draining false } else s := by
  rw [proceed, now, turn, step, now]

theorem proceed_draining {any : Bool} (now : s.phase = .draining any) : m.proceed s = m.recv s any false := by
  rw [proceed, now, turn, step, now]

theorem proceed_reading {left : List ι} {copy : κ} (now : s.phase = .reading left copy) :
    m.proceed s = m.readPart s copy true left := by
  rw [proceed, now, turn, step, now]

/-- A mirror that is not at rest comes nearer to it. -/
theorem proceed_distance (current : m.Current s) (restless : ¬(s.phase = .idle ∧ s.pending = false)) :
    m.distance (m.proceed s) < m.distance s := by
  unfold Current at current
  cases now : s.phase with
  | idle =>
    have pending : s.pending = true := by
      rw [now] at restless
      simpa using restless
    rw [proceed_idle now, if_pos pending, distance, distance, now]
    exact Nat.lt_succ_self _
  | draining any =>
    rw [now] at current
    rw [proceed_draining now, m.recv_eq, if_neg Bool.false_ne_true, distance, distance, now]
    by_cases overrun : s.overrun = true
    · have before : s.notices = s.queued + 1 := by rw [State.notices, if_pos overrun]
      rw [if_pos overrun, before, Nat.mul_succ]
      change (m.parts.length + 4) * s.queued + (m.parts.length + 2) < _
      cases any <;> dsimp only <;> omega
    have before : s.notices = s.queued := by rw [State.notices, if_neg overrun, Nat.add_zero]
    rw [if_neg overrun, before]
    by_cases queued : 0 < s.queued
    · obtain ⟨rest, more⟩ := Nat.exists_eq_succ_of_ne_zero (Nat.ne_of_gt queued)
      have after : State.notices { s with queued := s.queued - 1, phase := .draining true } = rest := by
        rw [State.notices, if_neg overrun, more]
        rfl
      rw [if_pos queued, after, more, Nat.mul_succ]
      cases any <;> dsimp only <;> omega
    · have empty : s.queued = 0 := Nat.eq_zero_of_not_pos queued
      have found : any = true := by
        refine current.resolve_left fun pending => ?_
        rw [pending_iff, before] at pending
        exact queued pending
      subst found
      have after : State.notices { s with phase := m.drained true } = 0 := by
        rw [State.notices, if_neg overrun, empty]
      rw [if_neg queued, after, empty]
      exact Nat.lt_succ_self _
  | reading left copy =>
    rw [proceed_reading now, distance, distance, now]
    cases left with
    | nil => exact Nat.lt_succ_self _
    | cons part left => exact Nat.lt_succ_self _

theorem proceed_live (current : m.Current s) (live : Live s) : Live (m.proceed s) := by
  unfold Current at current
  cases now : s.phase with
  | idle =>
    rw [proceed_idle now]
    split_ifs
    · exact nofun
    · exact live
  | draining any =>
    rw [now] at current
    rw [proceed_draining now, m.recv_eq, if_neg Bool.false_ne_true]
    split_ifs with overrun queued
    · exact nofun
    · exact nofun
    · have found : any = true := by
        refine current.resolve_left fun pending => ?_
        rw [pending_iff, State.notices, if_neg overrun] at pending
        exact queued pending
      subst found
      exact nofun
  | reading left copy =>
    rw [proceed_reading now]
    cases left with
    | nil => exact fun _ _ => rfl
    | cons part left => exact nofun

theorem proceed_source (s : State ν κ) : (m.proceed s).source = s.source := by
  cases now : s.phase with
  | idle =>
    rw [proceed_idle now]
    split_ifs <;> rfl
  | draining any =>
    rw [proceed_draining now, m.recv_eq]
    split_ifs <;> rfl
  | reading left copy =>
    rw [proceed_reading now]
    cases left <;> rfl

/-- A mirror at rest, with a good copy. -/
structure Settled (m : Mirror ν κ) (source : (part : ι) → ν part) (s : State ν κ) : Prop where
  idle : s.phase = .idle
  quiet : s.pending = false
  copy : s.copy = m.image source

omit [DecidableEq ι] in
theorem settled_of_rest (current : m.Current s) (live : Live s) (idle : s.phase = .idle) (quiet : s.pending = false) :
    Settled m s.source s := by
  unfold Current at current
  rw [idle, quiet, live idle quiet] at current
  exact ⟨idle, quiet, (current.resolve_left Bool.false_ne_true).resolve_left Bool.false_ne_true⟩

/-- Once the source stays as it is, the mirror comes to rest with a good copy of it, and stays there. -/
theorem settles (current : m.Current s) (live : Live s) {rounds : ℕ} (enough : m.distance s ≤ rounds) :
    Settled m s.source (m.proceed^[rounds] s) := by
  induction rounds generalizing s with
  | zero =>
    by_cases rest : s.phase = .idle ∧ s.pending = false
    · exact settled_of_rest current live rest.1 rest.2
    · have nearer := proceed_distance current rest
      omega
  | succ rounds ih =>
    rw [Function.iterate_succ_apply]
    by_cases rest : s.phase = .idle ∧ s.pending = false
    · have still : m.proceed s = s := by rw [proceed_idle rest.1, if_neg (Bool.eq_false_iff.mp rest.2)]
      rw [still, Function.iterate_fixed still]
      exact settled_of_rest current live rest.1 rest.2
    · have nearer := proceed_distance current rest
      have onward : m.Current (m.proceed s) := current_step current (turn s.phase)
      have settled := ih onward (proceed_live current live) (by omega)
      rwa [proceed_source] at settled

end Steps

end Mirror
