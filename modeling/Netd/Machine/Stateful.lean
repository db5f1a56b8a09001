import Mathlib.Data.List.Basic

/-! # Programs on a state that another owns

A program in `StateM` whose state is a store with its own calls. What every call keeps, a program made of
calls keeps: the rules follow the binds of the program and ask nothing else of the state. A call that may
give nothing, or a key of a known shape, has a rule of its own.
-/

namespace Stateful

variable {σ α β : Type}

/-- From a state of the precondition, the answer and the state it leaves are related. -/
def Ensures (pre : σ → Prop) (program : StateM σ α) (post : α → σ → Prop) : Prop :=
  ∀ s, pre s → post (program.run s).1 (program.run s).2

/-- Whatever it answers, the program leaves a state of the invariant in the invariant. -/
def Keeps (inv : σ → Prop) (program : StateM σ α) : Prop := Ensures inv program fun _ s => inv s

/-- A program that keeps the invariant gives nothing, or something of this shape. -/
def Gives (inv : σ → Prop) (program : StateM σ (Option α)) (shape : α → Prop) : Prop :=
  Ensures inv program fun answer s => inv s ∧ ∀ a ∈ answer, shape a

variable {inv pre : σ → Prop}

theorem run_bind (program : StateM σ α) (next : α → StateM σ β) (s : σ) :
    (program >>= next).run s = (next (program.run s).1).run (program.run s).2 := rfl

theorem Ensures.bind {program : StateM σ α} {next : α → StateM σ β} {middle : α → σ → Prop}
    {post : β → σ → Prop} (first : Ensures pre program middle) (later : ∀ a, Ensures (middle a) (next a) post) :
    Ensures pre (program >>= next) post :=
  fun s holds => later _ _ (first s holds)

theorem Keeps.pure (a : α) : Keeps inv (pure a : StateM σ α) := fun _ holds => holds

theorem Keeps.bind {program : StateM σ α} {next : α → StateM σ β} (first : Keeps inv program)
    {post : β → σ → Prop} (later : ∀ a, Ensures inv (next a) post) : Ensures inv (program >>= next) post :=
  Ensures.bind first later

theorem Keeps.map {program : StateM σ α} (f : α → β) (first : Keeps inv program) : Keeps inv (f <$> program) :=
  fun s holds => first s holds

theorem Keeps.forM {items : List α} {program : α → StateM σ PUnit}
    (each : ∀ item ∈ items, Keeps inv (program item)) :
    Keeps inv (items.forM program) := by
  induction items with
  | nil => exact .pure _
  | cons item rest ih =>
    change Keeps inv (program item >>= fun _ => rest.forM program)
    exact (each item List.mem_cons_self).bind fun _ => ih fun other member => each other (.tail _ member)

theorem Gives.none {shape : α → Prop} : Gives inv (pure none : StateM σ (Option α)) shape :=
  fun _ holds => ⟨holds, nofun⟩

theorem Gives.some {shape : α → Prop} {a : α} (shaped : shape a) :
    Gives inv (pure (some a) : StateM σ (Option α)) shape :=
  fun _ holds => ⟨holds, fun _ same => Option.some.inj same ▸ shaped⟩

/-- What follows on a key is asked only of keys of the shape. -/
theorem Gives.bind {program : StateM σ (Option α)} {shape : α → Prop} (given : Gives inv program shape)
    {next : Option α → StateM σ β} {post : β → σ → Prop} (missing : Ensures inv (next .none) post)
    (found : ∀ a, shape a → Ensures inv (next (.some a)) post) : Ensures inv (program >>= next) post := by
  intro s holds
  obtain ⟨after, shaped⟩ := given s holds
  rw [run_bind]
  cases answer : (program.run s).1 with
  | none => exact missing _ after
  | some a => exact found a (shaped a answer) _ after

theorem Gives.map {program : StateM σ (Option α)} {shape : α → Prop} (given : Gives inv program shape) {f : α → β}
    {other : β → Prop} (onward : ∀ a, shape a → other (f a)) :
    Gives inv (program >>= fun answer => Pure.pure (answer.map f)) other :=
  given.bind Gives.none fun a shaped => Gives.some (onward a shaped)

end Stateful
