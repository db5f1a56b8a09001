import Mathlib.Logic.Function.Iterate

/-! # Loops that try again

A loop draws from a state until a draw is acceptable, with nothing to bound it. That it ends, and with
what, is a relation, since it need not; where it does end it ends in one way, with a draw that is
acceptable.
-/

namespace Retry

variable {σ α : Type*} (draw : σ → α × σ) (acceptable : α → Bool)

/-- The loop started in a state ends with a draw and the state behind it. -/
inductive Ends : σ → α × σ → Prop
  | accepted {s : σ} (good : acceptable (draw s).1 = true) : Ends s (draw s)
  | again {s : σ} {result : α × σ} (bad : acceptable (draw s).1 = false) (later : Ends (draw s).2 result) :
      Ends s result

/-- The state after so many draws. -/
def after (k : ℕ) (s : σ) : σ := (fun s => (draw s).2)^[k] s

theorem after_succ (k : ℕ) (s : σ) : after draw (k + 1) s = after draw k (draw s).2 := Function.iterate_succ_apply _ _ _

variable {draw acceptable}

theorem Ends.acceptable_fst {s : σ} {result : α × σ} (ends : Ends draw acceptable s result) :
    acceptable result.1 = true := by
  induction ends with
  | accepted good => exact good
  | again _ _ ih => exact ih

/-- There is only one way for the loop to end. -/
theorem Ends.unique {s : σ} {result other : α × σ} (ends : Ends draw acceptable s result)
    (ends' : Ends draw acceptable s other) : result = other := by
  induction ends with
  | accepted good =>
    cases ends' with
    | accepted _ => rfl
    | again bad _ => exact absurd good (Bool.eq_false_iff.mp bad)
  | again bad _ ih =>
    cases ends' with
    | accepted good => exact absurd good (Bool.eq_false_iff.mp bad)
    | again _ later => exact ih later

end Retry
