import Mathlib.Algebra.BigOperators.Group.List.Basic
import Mathlib.Algebra.Order.Monoid.Canonical.Defs

/-! # Walks that draw on a budget

A walk keeps count of what it has spent and stops at the first thing it cannot have. What a walk does
is said twice: what holds however it ends, with what it cost, and that it gets through wherever
its cost can be afforded. Costs add up along a walk, whatever the order in which they are asked for.
-/

universe u

/-- A computation that counts what it spends and can fail. -/
abbrev Metered (W ε α : Type u) := StateT W (Except ε) α

namespace Metered

variable {W ε α β γ : Type u}

/-- A step that may fail and costs nothing. -/
def lift (x : Except ε α) : Metered W ε α := fun spent => x.map fun a => (a, spent)

theorem run'_eq_ok {walk : Metered W ε α} {start : W} {a : α} :
    walk.run' start = .ok a ↔ ∃ after, walk start = .ok (a, after) := by
  change (walk start).map Prod.fst = .ok a ↔ _
  cases walk start with
  | error e =>
    constructor
    · rintro ⟨⟩
    · rintro ⟨_, ⟨⟩⟩
  | ok out =>
    constructor
    · intro run
      exact ⟨out.2, congrArg _ (Prod.ext (Except.ok.inj run) rfl)⟩
    · rintro ⟨_, run⟩
      exact congrArg (Except.map Prod.fst) run

theorem run'_eq_error {walk : Metered W ε α} {start : W} {e : ε} :
    walk.run' start = .error e ↔ walk start = .error e := by
  change (walk start).map Prod.fst = .error e ↔ _
  cases walk start with
  | error failed =>
    constructor
    · exact fun run => congrArg _ (Except.error.inj run)
    · exact fun run => congrArg _ (Except.error.inj run)
  | ok out =>
    constructor
    · rintro ⟨⟩
    · rintro ⟨⟩

/-- Item by item: what came of each, and the sum of what they cost. -/
inductive Each [AddMonoid W] (post : α → β → W → Prop) : List α → List β → W → Prop
  | nil : Each post [] [] 0
  | cons {a : α} {b : β} {first more : W} {items : List α} {out : List β} (here : post a b first)
      (rest : Each post items out more) : Each post (a :: items) (b :: out) (first + more)

namespace Each

variable [AddMonoid W] {post : α → β → W → Prop} {items : List α} {out : List β} {cost : W}

theorem forall₂ (each : Each post items out cost) : List.Forall₂ (fun a b => ∃ cost, post a b cost) items out := by
  induction each with
  | nil => exact .nil
  | cons here _ ih => exact .cons ⟨_, here⟩ ih

theorem length_eq (each : Each post items out cost) : out.length = items.length := each.forall₂.length_eq.symm

theorem of_mem_items (each : Each post items out cost) : ∀ a ∈ items, ∃ b cost, post a b cost := by
  induction each with
  | nil => exact List.forall_mem_nil _
  | cons here _ ih => exact List.forall_mem_cons.mpr ⟨⟨_, _, here⟩, ih⟩

theorem of_mem_out (each : Each post items out cost) : ∀ b ∈ out, ∃ a cost, post a b cost := by
  induction each with
  | nil => exact List.forall_mem_nil _
  | cons here _ ih => exact List.forall_mem_cons.mpr ⟨⟨_, _, here⟩, ih⟩

/-- Where each item leaves no choice, there is none altogether. -/
theorem out_eq {related : α → β → Prop} {others : List β}
    (told : ∀ a b cost, post a b cost → ∀ other, related a other → b = other) (each : Each post items out cost)
    (all : List.Forall₂ related items others) : out = others := by
  induction each generalizing others with
  | nil =>
    cases all
    rfl
  | cons here _ ih =>
    cases all with
    | cons first rest => rw [told _ _ _ here _ first, ih rest]

/-- A cost that can be told from the items. -/
theorem sum_items {V : Type*} [AddMonoid V] (weigh : W →+ V) {size : α → V}
    (told : ∀ a b cost, post a b cost → weigh cost = size a) (each : Each post items out cost) :
    weigh cost = (items.map size).sum := by
  induction each with
  | nil => exact weigh.map_zero
  | cons here _ ih => rw [weigh.map_add, told _ _ _ here, ih, List.map_cons, List.sum_cons]

/-- A cost that can be told from what came of the items. -/
theorem sum_out {V : Type*} [AddMonoid V] (weigh : W →+ V) {size : β → V}
    (told : ∀ a b cost, post a b cost → weigh cost = size b) (each : Each post items out cost) :
    weigh cost = (out.map size).sum := by
  induction each with
  | nil => exact weigh.map_zero
  | cons here _ ih => rw [weigh.map_add, told _ _ _ here, ih, List.map_cons, List.sum_cons]

end Each

variable [AddCommMonoid W] [PartialOrder W]

/-- However a walk ends that starts within the limit: it is within the limit still and what came of it agrees with
what it cost, or it failed in a way that is allowed. -/
structure Keeps (limit : W) (allowed : ε → Prop) (walk : Metered W ε α) (post : α → W → Prop) : Prop where
  ok : ∀ {spent after : W} {a : α}, spent ≤ limit → walk spent = .ok (a, after) →
    after ≤ limit ∧ ∃ cost, after = spent + cost ∧ post a cost
  error : ∀ {spent : W} {e : ε}, spent ≤ limit → walk spent = .error e → allowed e

/-- A walk that gets through wherever its cost can be afforded. -/
def Affords (limit : W) (walk : Metered W ε α) (cost : W) (post : α → Prop) : Prop :=
  ∀ spent, spent + cost ≤ limit → ∃ a, walk spent = .ok (a, spent + cost) ∧ post a

/-- A walk that asks for its cost at once. -/
structure Charges (limit : W) (walk : Metered W ε α) (cost : W) (a : α) (e : ε) : Prop where
  ok : ∀ spent, spent + cost ≤ limit → walk spent = .ok (a, spent + cost)
  error : ∀ spent, spent ≤ limit → ¬spent + cost ≤ limit → walk spent = .error e

/-! ## However it ends -/

namespace Keeps

variable {limit : W} {allowed : ε → Prop}

theorem mono {walk : Metered W ε α} {post weaker : α → W → Prop} (keeps : Keeps limit allowed walk post)
    (implied : ∀ a cost, post a cost → weaker a cost) : Keeps limit allowed walk weaker where
  ok within run := by
    obtain ⟨bounded, cost, rfl, holds⟩ := keeps.ok within run
    exact ⟨bounded, cost, rfl, implied _ _ holds⟩
  error := keeps.error

theorem pure {a : α} {post : α → W → Prop} (holds : post a 0) : Keeps limit allowed (Pure.pure a) post where
  ok within run := by
    obtain ⟨rfl, rfl⟩ := Prod.mk.inj (Except.ok.inj run)
    exact ⟨within, 0, (add_zero _).symm, holds⟩
  error _ run := nomatch run

theorem throw {e : ε} (fine : allowed e) {post : α → W → Prop} :
    Keeps limit allowed (MonadExcept.throw e : Metered W ε α) post where
  ok _ run := nomatch run
  error _ run := Except.error.inj run ▸ fine

theorem lift {x : Except ε α} {post : α → W → Prop} (holds : ∀ a, x = .ok a → post a 0)
    (fine : ∀ e, x = .error e → allowed e) : Keeps limit allowed (lift x) post where
  ok within run := by
    cases x with
    | error e => exact nomatch run
    | ok a =>
      obtain ⟨rfl, rfl⟩ := Prod.mk.inj (Except.ok.inj run)
      exact ⟨within, 0, (add_zero _).symm, holds _ rfl⟩
  error _ run := by
    cases x with
    | error e => exact fine _ (Except.error.inj run ▸ rfl)
    | ok a => exact nomatch run

variable [CanonicallyOrderedAdd W]

/-- One walk after another. What the first cost is no more than the limit. -/
theorem bind {walk : Metered W ε α} {next : α → Metered W ε β} {post : α → W → Prop} {result : β → W → Prop}
    (first : Keeps limit allowed walk post)
    (second : ∀ a cost, cost ≤ limit → post a cost →
      Keeps limit allowed (next a) fun b more => result b (cost + more)) :
    Keeps limit allowed (walk >>= next) result where
  ok {spent after b} within run := by
    change Except.bind (walk spent) (fun out => next out.1 out.2) = .ok (b, after) at run
    cases ended : walk spent with
    | error e =>
      rw [ended] at run
      exact nomatch run
    | ok out =>
      obtain ⟨bounded, cost, spends, holds⟩ := first.ok within ended
      have affordable : cost ≤ limit := le_add_self.trans (spends ▸ bounded)
      rw [ended] at run
      obtain ⟨still, more, rfl, all⟩ := (second out.1 cost affordable holds).ok bounded run
      exact ⟨still, cost + more, by rw [spends, add_assoc], all⟩
  error {spent e} within run := by
    change Except.bind (walk spent) (fun out => next out.1 out.2) = .error e at run
    cases ended : walk spent with
    | error first_ =>
      rw [ended] at run
      exact first.error within (Except.error.inj run ▸ ended)
    | ok out =>
      obtain ⟨bounded, cost, spends, holds⟩ := first.ok within ended
      have affordable : cost ≤ limit := le_add_self.trans (spends ▸ bounded)
      rw [ended] at run
      exact (second out.1 cost affordable holds).error bounded run

theorem mapM {step : α → Metered W ε β} {post : α → β → W → Prop} {items : List α}
    (each : ∀ a ∈ items, Keeps limit allowed (step a) (post a)) :
    Keeps limit allowed (items.mapM step) (Each post items) := by
  induction items with
  | nil => exact .pure .nil
  | cons a rest ih =>
    rw [List.mapM_cons]
    obtain ⟨here, later⟩ := List.forall_mem_cons.mp each
    refine here.bind fun b cost _ first => (ih later).bind fun out more _ others => .pure ?_
    rw [add_zero]
    exact .cons first others

end Keeps

/-! ## Where it gets through -/

namespace Affords

variable {limit : W}

theorem mono {walk : Metered W ε α} {cost : W} {post weaker : α → Prop} (affords : Affords limit walk cost post)
    (implied : ∀ a, post a → weaker a) : Affords limit walk cost weaker := by
  intro spent room
  obtain ⟨a, run, holds⟩ := affords spent room
  exact ⟨a, run, implied a holds⟩

theorem pure {a : α} {post : α → Prop} (holds : post a) : Affords limit (Pure.pure a : Metered W ε α) 0 post :=
  fun spent _ => ⟨a, by rw [add_zero]; rfl, holds⟩

theorem lift {x : Except ε α} {a : α} {post : α → Prop} (fine : x = .ok a) (holds : post a) :
    Affords limit (lift x) 0 post :=
  fun spent _ => ⟨a, by rw [add_zero, fine]; rfl, holds⟩

/-- A check for what comes later passes wherever that can be afforded. -/
theorem check (answer : γ) {test : Metered W ε γ} {next : γ → Metered W ε β} {cost : W} {result : β → Prop}
    (passes : ∀ spent, spent + cost ≤ limit → test spent = .ok (answer, spent))
    (later : Affords limit (next answer) cost result) : Affords limit (test >>= next) cost result := by
  intro spent room
  obtain ⟨b, through, all⟩ := later spent room
  refine ⟨b, ?_, all⟩
  change Except.bind (test spent) (fun out => next out.1 out.2) = _
  rw [passes spent room]
  exact through

variable [CanonicallyOrderedAdd W]

/-- Nothing is to be shown of a cost that can never be afforded. -/
theorem of_le {walk : Metered W ε α} {cost : W} {post : α → Prop}
    (affords : cost ≤ limit → Affords limit walk cost post) : Affords limit walk cost post :=
  fun spent room => affords (le_add_self.trans room) spent room

theorem bind {walk : Metered W ε α} {next : α → Metered W ε β} {cost more total : W} {post : α → Prop}
    {result : β → Prop} (first : Affords limit walk cost post)
    (second : ∀ a, post a → Affords limit (next a) more result) (sum : total = cost + more) :
    Affords limit (walk >>= next) total result := by
  intro spent room
  rw [sum, ← add_assoc] at room ⊢
  obtain ⟨a, run, holds⟩ := first spent (le_self_add.trans room)
  obtain ⟨b, through, all⟩ := second a holds (spent + cost) room
  refine ⟨b, ?_, all⟩
  change Except.bind (walk spent) (fun out => next out.1 out.2) = _
  rw [run]
  exact through

theorem mapM {step : α → Metered W ε β} {size : γ → W} {post : γ → β → Prop} {items : List α} {told : List γ}
    (each : List.Forall₂ (fun a c => Affords limit (step a) (size c) (post c)) items told) :
    Affords limit (items.mapM step) (told.map size).sum (List.Forall₂ post told) := by
  induction each with
  | nil => exact .pure .nil
  | cons here _ ih =>
    rw [List.mapM_cons]
    refine here.bind (fun b first => ih.bind (fun out others => .pure ?_) (add_zero _).symm) List.sum_cons
    exact .cons first others

/-- Item by item the value that was told. -/
theorem mapM_eq {step : α → Metered W ε β} {size : β → W} {items : List α} {told : List β}
    (each : List.Forall₂ (fun a b => Affords limit (step a) (size b) (· = b)) items told) :
    Affords limit (items.mapM step) (told.map size).sum (· = told) := by
  have all : Affords limit (items.mapM step) (told.map size).sum (List.Forall₂ (fun b found => found = b) told) :=
    mapM each
  apply all.mono
  intro out same
  clear each all
  induction same with
  | nil => rfl
  | cons here _ ih => rw [here, ih]

end Affords

/-! ## Asking at once -/

namespace Charges

variable {limit cost : W} {walk : Metered W ε α} {a : α} {e : ε} (charges : Charges limit walk cost a e)

include charges

theorem keeps {allowed : ε → Prop} (fine : allowed e) :
    Keeps limit allowed walk fun out spends => out = a ∧ spends = cost where
  ok {spent after out} within run := by
    by_cases room : spent + cost ≤ limit
    · rw [charges.ok spent room] at run
      obtain ⟨rfl, rfl⟩ := Prod.mk.inj (Except.ok.inj run)
      exact ⟨room, cost, rfl, rfl, rfl⟩
    · rw [charges.error spent within room] at run
      contradiction
  error {spent failed} within run := by
    by_cases room : spent + cost ≤ limit
    · rw [charges.ok spent room] at run
      contradiction
    · rw [charges.error spent within room] at run
      exact Except.error.inj run ▸ fine

theorem affords : Affords limit walk cost fun out => out = a :=
  fun spent room => ⟨a, charges.ok spent room, rfl⟩

end Charges

end Metered
