import Mathlib.Data.List.Induction

/-! # Statements of which the last one counts

A step absorbs when saying something again later makes it as if it had not been said before. Then
repeating a whole list of statements changes nothing: everything in it was said already, and in this
order.
-/

/-- What is said again, at once or later, need not have been said before. -/
structure Absorbing {σ α : Type*} (step : σ → α → σ) : Prop where
  again : ∀ state item, step (step state item) item = step state item
  later : ∀ state item between, step (step (step state item) between) item = step (step state between) item

namespace Absorbing

variable {σ α : Type*} {step : σ → α → σ}

/-- A statement is absorbed by its repetition, whatever was said in between. -/
theorem foldl_later (absorbing : Absorbing step) (item : α) (between : List α) (state : σ) :
    step (between.foldl step (step state item)) item = step (between.foldl step state) item := by
  induction between using List.reverseRecOn with
  | nil => exact absorbing.again state item
  | append_singleton earlier last ih =>
    rw [List.foldl_append, List.foldl_append, List.foldl_cons, List.foldl_nil, List.foldl_cons, List.foldl_nil,
      ← absorbing.later (earlier.foldl step (step state item)), ih, absorbing.later]

/-- Saying everything a second time changes nothing. -/
theorem foldl_again (absorbing : Absorbing step) (items : List α) (state : σ) :
    items.foldl step (items.foldl step state) = items.foldl step state := by
  induction items using List.reverseRecOn generalizing state with
  | nil => rfl
  | append_singleton earlier last ih =>
    rw [List.foldl_append, List.foldl_append, List.foldl_cons, List.foldl_nil, List.foldl_cons, List.foldl_nil,
      absorbing.foldl_later, ih]

end Absorbing
