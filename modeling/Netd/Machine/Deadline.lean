import Mathlib.Order.WithBot
import Mathlib.Order.MinMax

/-! # Deadlines and lifetimes that may never come

An optional instant is a deadline or the end of a lifetime; `none` never comes. The soonest of
several deadlines is reached exactly when one of them is, and between two instants that no end
separates, every comparison with that end gives the same answer. As elements of `WithTop τ` the
ends are ordered, with `⊤` for the lifetime that does not end.
-/

namespace Deadline

variable {τ : Type*} [LinearOrder τ]

/-- The instant has not come yet; `none` never does. -/
def Ahead (now : τ) (ends : Option τ) : Prop := ∀ moment ∈ ends, now < moment

instance (now : τ) (ends : Option τ) : Decidable (Ahead now ends) :=
  match ends with
  | none => isTrue fun _ member => nomatch member
  | some moment => decidable_of_iff (now < moment)
      ⟨fun lt _ member => Option.mem_some.mp member ▸ lt, fun all => all moment rfl⟩

@[simp] theorem ahead_none (now : τ) : Ahead now none := fun _ member => nomatch member

@[simp] theorem ahead_some {now ends : τ} : Ahead now (some ends) ↔ now < ends :=
  ⟨fun all => all ends rfl, fun lt _ member => Option.mem_some.mp member ▸ lt⟩

theorem all_eq_true_iff {now : τ} {ends : Option τ} :
    (ends.all fun moment => decide (now < moment)) = true ↔ Ahead now ends := by
  cases ends <;> simp

theorem any_eq_true_iff {now : τ} {ends : Option τ} :
    (ends.any fun moment => decide (moment ≤ now)) = true ↔ ¬ Ahead now ends := by
  cases ends <;> simp

/-- The earlier of two deadlines. -/
def sooner : Option τ → Option τ → Option τ
  | some first, some second => some (min first second)
  | some first, none => some first
  | none, second => second

theorem ahead_sooner {now : τ} (first second : Option τ) :
    Ahead now (sooner first second) ↔ Ahead now first ∧ Ahead now second := by
  cases first <;> cases second <;> simp [sooner]

/-- A deadline met while scanning a list is the soonest of those scanned. -/
theorem ahead_foldl_sooner {now : τ} (first : Option τ) (rest : List (Option τ)) :
    Ahead now (rest.foldl sooner first) ↔ Ahead now first ∧ ∀ ends ∈ rest, Ahead now ends := by
  induction rest generalizing first with
  | nil => simp
  | cons head rest ih => simp [ih, ahead_sooner, and_assoc]

/-! ## Instants that no end separates -/

/-- The end came by the first instant, or comes after the second. -/
def Settled (first second : τ) (ends : Option τ) : Prop := ∀ moment ∈ ends, moment ≤ first ∨ second < moment

theorem Settled.all_eq {first second : τ} (le : first ≤ second) {ends : Option τ}
    (settled : Settled first second ends) :
    (ends.all fun moment => decide (first < moment)) = (ends.all fun moment => decide (second < moment)) := by
  cases ends with
  | none => rfl
  | some moment =>
    rcases settled moment rfl with past | future
    · simp [not_lt.mpr past, not_lt.mpr (past.trans le)]
    · simp [future, le.trans_lt future]

theorem Settled.any_eq {first second : τ} (le : first ≤ second) {ends : Option τ}
    (settled : Settled first second ends) :
    (ends.any fun moment => decide (moment ≤ first)) = (ends.any fun moment => decide (moment ≤ second)) := by
  cases ends with
  | none => rfl
  | some moment =>
    rcases settled moment rfl with past | future
    · simp [past, past.trans le]
    · simp [not_le.mpr future, not_le.mpr (le.trans_lt future)]

/-! ## The end of a lifetime as a point of `WithTop` -/

/-- Where a lifetime ends; one without an end lasts for ever. -/
def ending : Option τ → WithTop τ
  | some moment => (moment : WithTop τ)
  | none => ⊤

omit [LinearOrder τ] in
@[simp] theorem ending_none : ending (none : Option τ) = ⊤ := rfl

omit [LinearOrder τ] in
@[simp] theorem ending_some (moment : τ) : ending (some moment) = (moment : WithTop τ) := rfl

theorem ahead_iff_lt_ending {now : τ} {ends : Option τ} :
    Ahead now ends ↔ (now : WithTop τ) < ending ends := by
  cases ends <;> simp

end Deadline
