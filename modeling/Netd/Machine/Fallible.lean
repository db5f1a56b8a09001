import Mathlib.Data.List.Basic

/-! # Steps that can fail

Readers that stop at the first error are binds and monadic folds in `Except`. What comes out of one
that did not stop, and when one stops at all, is said here once.
-/

namespace Fallible

universe u v

variable {ε : Type u} {α β : Type v}

theorem ok_bind (a : α) (f : α → Except ε β) : (Except.ok a >>= f) = f a := rfl

theorem bind_eq_ok {x : Except ε α} {f : α → Except ε β} {b : β} :
    x.bind f = .ok b ↔ ∃ a, x = .ok a ∧ f a = .ok b := by
  cases x with
  | error e =>
    constructor
    · rintro ⟨⟩
    · rintro ⟨_, ⟨⟩, -⟩
  | ok a =>
    constructor
    · exact fun run => ⟨a, rfl, run⟩
    · rintro ⟨_, ⟨⟩, run⟩
      exact run

theorem map_eq_ok {x : Except ε α} {f : α → β} {b : β} : x.map f = .ok b ↔ ∃ a, x = .ok a ∧ f a = b := by
  cases x with
  | error e =>
    constructor
    · rintro ⟨⟩
    · rintro ⟨_, ⟨⟩, -⟩
  | ok a =>
    constructor
    · exact fun run => ⟨a, rfl, Except.ok.inj run⟩
    · rintro ⟨_, ⟨⟩, rfl⟩
      rfl

theorem map_eq_error {x : Except ε α} {f : α → β} {e : ε} : x.map f = .error e ↔ x = .error e := by
  cases x with
  | error e' =>
    constructor
    · exact fun run => congrArg _ (Except.error.inj run)
    · exact fun run => congrArg _ (Except.error.inj run)
  | ok a => exact iff_of_false nofun nofun

theorem exists_map {x : Except ε α} {f : α → β} : (∃ b, x.map f = .ok b) ↔ ∃ a, x = .ok a := by
  cases x with
  | error e => exact iff_of_false nofun nofun
  | ok a => exact iff_of_true ⟨f a, rfl⟩ ⟨a, rfl⟩

/-- What comes out of a map that did not stop comes from some item. -/
theorem mem_of_mapM {f : α → Except ε β} {items : List α} {out : List β} (run : items.mapM f = .ok out) :
    ∀ b ∈ out, ∃ a ∈ items, f a = .ok b := by
  induction items generalizing out with
  | nil =>
    obtain rfl := Except.ok.inj run
    exact List.forall_mem_nil _
  | cons a rest ih =>
    rw [List.mapM_cons] at run
    obtain ⟨first, taken, run⟩ := bind_eq_ok.mp run
    obtain ⟨others, later, run⟩ := bind_eq_ok.mp run
    obtain rfl := Except.ok.inj run
    refine List.forall_mem_cons.mpr ⟨⟨a, List.mem_cons_self, taken⟩, fun b member => ?_⟩
    obtain ⟨other, there, found⟩ := ih later b member
    exact ⟨other, List.mem_cons_of_mem _ there, found⟩

/-- Steps that undo what was done to each item give the items back. -/
theorem mapM_map {f : β → Except ε α} {g : α → β} {items : List α} (undone : ∀ a ∈ items, f (g a) = .ok a) :
    (items.map g).mapM f = .ok items := by
  induction items with
  | nil => rfl
  | cons a rest ih =>
    obtain ⟨here, later⟩ := List.forall_mem_cons.mp undone
    rw [List.map_cons, List.mapM_cons, here, ih later]
    rfl

theorem mapM_cons_eq_ok {f : α → Except ε β} {a : α} {rest : List α} {out : List β} :
    (a :: rest).mapM f = .ok out ↔ ∃ b later, f a = .ok b ∧ rest.mapM f = .ok later ∧ out = b :: later := by
  rw [List.mapM_cons]
  constructor
  · intro run
    obtain ⟨b, here, run⟩ := bind_eq_ok.mp run
    obtain ⟨later, others, run⟩ := bind_eq_ok.mp run
    exact ⟨b, later, here, others, (Except.ok.inj run).symm⟩
  · rintro ⟨b, later, here, others, rfl⟩
    rw [here, others]
    rfl

/-- A map gets to its end if every step does. -/
theorem exists_mapM {f : α → Except ε β} {items : List α} :
    (∃ out, items.mapM f = .ok out) ↔ ∀ a ∈ items, ∃ b, f a = .ok b := by
  induction items with
  | nil => exact iff_of_true ⟨[], rfl⟩ (List.forall_mem_nil _)
  | cons a rest ih =>
    rw [List.forall_mem_cons, ← ih]
    constructor
    · rintro ⟨out, run⟩
      obtain ⟨b, later, here, others, -⟩ := mapM_cons_eq_ok.mp run
      exact ⟨⟨b, here⟩, later, others⟩
    · rintro ⟨⟨b, here⟩, later, others⟩
      exact ⟨b :: later, mapM_cons_eq_ok.mpr ⟨b, later, here, others, rfl⟩⟩

/-- Every item has left something. -/
theorem mem_mapM {f : α → Except ε β} {items : List α} {out : List β} (run : items.mapM f = .ok out) {a : α}
    (member : a ∈ items) {b : β} (step : f a = .ok b) : b ∈ out := by
  induction items generalizing out with
  | nil => cases member
  | cons first rest ih =>
    obtain ⟨left, later, here, others, rfl⟩ := mapM_cons_eq_ok.mp run
    rcases List.mem_cons.mp member with rfl | member
    · exact List.mem_cons.mpr (.inl (Except.ok.inj (step.symm.trans here)))
    · exact List.mem_cons_of_mem _ (ih others member)

/-- What undoes each step undoes a map. -/
theorem map_of_mapM {f : α → Except ε β} {g : β → α} {items : List α} {out : List β} (run : items.mapM f = .ok out)
    (undone : ∀ a b, f a = .ok b → g b = a) : out.map g = items := by
  induction items generalizing out with
  | nil =>
    obtain rfl := Except.ok.inj run
    rfl
  | cons a rest ih =>
    obtain ⟨b, later, here, others, rfl⟩ := mapM_cons_eq_ok.mp run
    rw [List.map_cons, undone a b here, ih others]

theorem mapM_eq_error {f : α → Except ε β} {items : List α} {e : ε} (run : items.mapM f = .error e) :
    ∃ a ∈ items, f a = .error e := by
  induction items with
  | nil => cases run
  | cons a rest ih =>
    rw [List.mapM_cons] at run
    cases here : f a with
    | error e' =>
      rw [here] at run
      obtain rfl : e' = e := Except.error.inj run
      exact ⟨a, List.mem_cons_self, here⟩
    | ok b =>
      cases later : rest.mapM f with
      | error e' =>
        rw [here, later] at run
        obtain rfl : e' = e := Except.error.inj run
        obtain ⟨other, member, failed⟩ := ih later
        exact ⟨other, List.mem_cons_of_mem a member, failed⟩
      | ok out =>
        rw [here, later] at run
        cases run

theorem eq_filterMap_of_mapM {f : α → Except ε β} {items : List α} {out : List β} (run : items.mapM f = .ok out) :
    out = items.filterMap fun a => (f a).toOption := by
  induction items generalizing out with
  | nil => exact (Except.ok.inj run).symm
  | cons a rest ih =>
    obtain ⟨b, later, here, others, rfl⟩ := mapM_cons_eq_ok.mp run
    rw [List.filterMap_cons_some (b := b) (by rw [here]; rfl), ← ih others]

/-- Steps that fail in one way only come to the same for items in any order, up to that order. -/
theorem mapM_perm {f : α → Except ε β} {only : ε} (one : ∀ a e, f a = .error e → e = only) {items others : List α}
    (same : items.Perm others) :
    (items.mapM f = .error only ∧ others.mapM f = .error only) ∨
      ∃ out out', items.mapM f = .ok out ∧ others.mapM f = .ok out' ∧ out.Perm out' := by
  cases run : items.mapM f with
  | error e =>
    obtain ⟨a, member, failed⟩ := mapM_eq_error run
    cases run' : others.mapM f with
    | error e' =>
      obtain ⟨a', -, failed'⟩ := mapM_eq_error run'
      rw [one a e failed, one a' e' failed']
      exact .inl ⟨rfl, rfl⟩
    | ok out' =>
      obtain ⟨b, taken⟩ := exists_mapM.mp ⟨out', run'⟩ a (same.mem_iff.mp member)
      cases failed.symm.trans taken
  | ok out =>
    obtain ⟨out', run'⟩ := exists_mapM.mpr fun a member =>
      exists_mapM.mp ⟨out, run⟩ a (same.mem_iff.mpr member)
    refine .inr ⟨out, out', rfl, run', ?_⟩
    rw [eq_filterMap_of_mapM run, eq_filterMap_of_mapM run']
    exact same.filterMap _

/-- Two outcomes are alike if both are the same failure, or successes that are related. -/
inductive Alike {α β : Type v} (related : α → β → Prop) : Except ε α → Except ε β → Prop where
  | error (e : ε) : Alike related (.error e) (.error e)
  | ok {a : α} {b : β} (both : related a b) : Alike related (.ok a) (.ok b)

/-- What goes on alike from outcomes that are alike ends in the same. -/
theorem Alike.bind_eq {α β γ : Type v} {related : α → β → Prop} {x : Except ε α} {y : Except ε β}
    (alike : Alike related x y) {f : α → Except ε γ} {g : β → Except ε γ} (onward : ∀ a b, related a b → f a = g b) :
    x.bind f = y.bind g := by
  cases alike with
  | error e => rfl
  | ok both => exact onward _ _ both

/-- Outcomes that are alike go on alike. -/
theorem Alike.bind {α β : Type v} {γ δ : Type v} {related : α → β → Prop} {next : γ → δ → Prop} {x : Except ε α}
    {y : Except ε β} (alike : Alike related x y) {f : α → Except ε γ} {g : β → Except ε δ}
    (onward : ∀ a b, related a b → Alike next (f a) (g b)) : Alike next (x >>= f) (y >>= g) := by
  cases alike with
  | error e => exact .error e
  | ok both => exact onward _ _ both

theorem Alike.exists_ok {α β : Type v} {related : α → β → Prop} {x : Except ε α} {y : Except ε β}
    (alike : Alike related x y) {a : α} (run : x = .ok a) : ∃ b, y = .ok b ∧ related a b := by
  cases alike with
  | error e => cases run
  | ok both =>
    obtain rfl := Except.ok.inj run
    exact ⟨_, rfl, both⟩

/-- Steps that keep two states related fold alike. -/
theorem foldlM_alike {σ τ : Type v} {step : σ → α → Except ε σ} {other : τ → α → Except ε τ} {related : σ → τ → Prop}
    (keeps : ∀ s t a, related s t → Alike related (step s a) (other t a)) (items : List α) {s : σ} {t : τ}
    (start : related s t) : Alike related (items.foldlM step s) (items.foldlM other t) := by
  induction items generalizing s t with
  | nil => exact .ok start
  | cons a rest ih =>
    rw [List.foldlM_cons, List.foldlM_cons]
    exact (keeps s t a start).bind fun _ _ both => ih both

/-- What every step keeps is kept by a fold that did not stop. -/
theorem foldlM_invariant {σ : Type v} {step : σ → α → Except ε σ} {inv : σ → Prop} {items : List α}
    (keeps : ∀ s, ∀ a ∈ items, ∀ next, inv s → step s a = .ok next → inv next) {s last : σ}
    (holds : inv s) (run : items.foldlM step s = .ok last) : inv last := by
  induction items generalizing s with
  | nil =>
    obtain rfl := Except.ok.inj run
    exact holds
  | cons a rest ih =>
    rw [List.foldlM_cons] at run
    obtain ⟨next, taken, run⟩ := bind_eq_ok.mp run
    refine ih (fun s b member => ?_) (keeps s a List.mem_cons_self next holds taken) run
    exact keeps s b (List.mem_cons_of_mem a member)

/-- A fold that stops at the first bad item. -/
theorem foldlM_cases {σ : Type v} {step : σ → α → Except ε σ} {bad : α → Prop} {take : σ → α → σ}
    (refused : ∀ s a, bad a → ∃ e, step s a = .error e) (taken : ∀ s a, ¬bad a → step s a = .ok (take s a))
    (items : List α) (s : σ) :
    ((∃ a ∈ items, bad a) ∧ ∃ e, items.foldlM step s = .error e) ∨
      ((∀ a ∈ items, ¬bad a) ∧ items.foldlM step s = .ok (items.foldl take s)) := by
  induction items generalizing s with
  | nil => exact .inr ⟨List.forall_mem_nil _, rfl⟩
  | cons a rest ih =>
    rw [List.foldlM_cons]
    by_cases first : bad a
    · obtain ⟨e, stop⟩ := refused s a first
      exact .inl ⟨⟨a, List.mem_cons_self, first⟩, e, by rw [stop]; rfl⟩
    · rw [taken s a first]
      obtain ⟨⟨b, member, later⟩, e, stop⟩ | ⟨fine, run⟩ := ih (take s a)
      · exact .inl ⟨⟨b, List.mem_cons_of_mem _ member, later⟩, e, stop⟩
      · exact .inr ⟨List.forall_mem_cons.mpr ⟨first, fine⟩, run⟩

end Fallible
