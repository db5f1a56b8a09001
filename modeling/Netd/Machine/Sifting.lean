import Mathlib.Data.List.Basic

/-! # Reading on until an item ends it

A reader goes through a list of items, passes some of them on, goes over others, and ends at the first
item that makes it end. In what pieces the items arrive makes no difference to it, and neither do the
items it goes over.
-/

/-- What a reader makes of an item. -/
inductive Verdict (β γ : Type*) where
  | skip
  | pass (what : β)
  | stop (result : γ)

namespace Verdict

variable {β γ : Type*}

def passed : Verdict β γ → Option β
  | pass what => some what
  | _ => none

def stopped : Verdict β γ → Option γ
  | stop result => some result
  | _ => none

@[simp] theorem passed_skip : (skip : Verdict β γ).passed = none := rfl

@[simp] theorem passed_pass (what : β) : (pass what : Verdict β γ).passed = some what := rfl

@[simp] theorem passed_stop (result : γ) : (stop result : Verdict β γ).passed = none := rfl

@[simp] theorem stopped_skip : (skip : Verdict β γ).stopped = none := rfl

@[simp] theorem stopped_pass (what : β) : (pass what : Verdict β γ).stopped = none := rfl

@[simp] theorem stopped_stop (result : γ) : (stop result : Verdict β γ).stopped = some result := rfl

end Verdict

namespace Sifting

variable {α β γ : Type*} (judge : α → Verdict β γ)

/-- What is passed on, and what the reader ends with if it ends. -/
def run : List α → List β × Option γ
  | [] => ([], none)
  | item :: rest =>
    match judge item with
    | .skip => run rest
    | .pass what => (what :: (run rest).1, (run rest).2)
    | .stop result => ([], some result)

variable {judge}

theorem run_skip {item : α} (skip : judge item = .skip) (rest : List α) :
    run judge (item :: rest) = run judge rest := by rw [run, skip]

theorem run_pass {item : α} {what : β} (pass : judge item = .pass what) (rest : List α) :
    run judge (item :: rest) = (what :: (run judge rest).1, (run judge rest).2) := by rw [run, pass]

theorem run_stop {item : α} {result : γ} (stop : judge item = .stop result) (rest : List α) :
    run judge (item :: rest) = ([], some result) := by rw [run, stop]

/-- A reader that has not ended reads on. -/
theorem run_append_of_none {items : List α} (reading : (run judge items).2 = none) (more : List α) :
    run judge (items ++ more) = ((run judge items).1 ++ (run judge more).1, (run judge more).2) := by
  induction items with
  | nil => rfl
  | cons item rest ih =>
    rw [List.cons_append]
    cases verdict : judge item with
    | skip =>
      rw [run_skip verdict] at reading ⊢
      rw [run_skip verdict, ih reading]
    | pass what =>
      rw [run_pass verdict] at reading ⊢
      rw [run_pass verdict, ih reading, List.cons_append]
    | stop result =>
      rw [run_stop verdict] at reading
      cases reading

/-- One that has ended does not look at what comes later. -/
theorem run_append_of_some {items : List α} {result : γ} (ended : (run judge items).2 = some result)
    (more : List α) : run judge (items ++ more) = run judge items := by
  induction items with
  | nil => cases ended
  | cons item rest ih =>
    rw [List.cons_append]
    cases verdict : judge item with
    | skip =>
      rw [run_skip verdict] at ended ⊢
      rw [run_skip verdict, ih ended]
    | pass what =>
      rw [run_pass verdict] at ended ⊢
      rw [run_pass verdict, ih ended]
    | stop result => rw [run_stop verdict, run_stop verdict]

/-- Items that are gone over might as well not be there. -/
theorem run_filter {keep : α → Bool} {verdict : α → Verdict β γ}
    (kept : ∀ item, keep item = true → judge item = verdict item)
    (skipped : ∀ item, keep item = false → judge item = .skip) (items : List α) :
    run judge items = run verdict (items.filter keep) := by
  induction items with
  | nil => rfl
  | cons item rest ih =>
    cases keeps : keep item with
    | true => rw [List.filter_cons_of_pos keeps, run, run, ih, kept item keeps]
    | false => rw [List.filter_cons_of_neg (Bool.eq_false_iff.mp keeps), run_skip (skipped item keeps), ih]

/-- What is passed on comes, in order, from the items before the first that ends the reading. -/
theorem run_passed (items : List α) :
    (run judge items).1 =
      (items.takeWhile fun item => (judge item).stopped.isNone).filterMap fun item => (judge item).passed := by
  induction items with
  | nil => rfl
  | cons item rest ih =>
    rw [List.takeWhile_cons]
    cases verdict : judge item with
    | skip => rw [run_skip verdict, ih, Verdict.stopped_skip, if_pos Option.isNone_none,
        List.filterMap_cons_none (by rw [verdict, Verdict.passed_skip])]
    | pass what => rw [run_pass verdict, ih, Verdict.stopped_pass, if_pos Option.isNone_none,
        List.filterMap_cons_some (by rw [verdict, Verdict.passed_pass])]
    | stop result => rw [run_stop verdict, Verdict.stopped_stop, if_neg (by simp), List.filterMap_nil]

/-- And what the reading ends with is what the first such item makes of it. -/
theorem run_stopped (items : List α) :
    (run judge items).2 = items.findSome? fun item => (judge item).stopped := by
  induction items with
  | nil => rfl
  | cons item rest ih =>
    rw [List.findSome?_cons]
    cases verdict : judge item with
    | skip => rw [run_skip verdict, ih, Verdict.stopped_skip]
    | pass what => rw [run_pass verdict, ih, Verdict.stopped_pass]
    | stop result => rw [run_stop verdict, Verdict.stopped_stop]

end Sifting
