import Mathlib.Data.List.Basic
import Mathlib.Order.Basic

/-! # Deterministic machines that answer every input

A `Transducer` steps on an input and answers with an output; the clients and engines of a daemon
are of this shape. A `Run` is a finite execution in which every input was admissible in the state
it met, so that clocks that never go back, callers that keep their deadlines, and networks that
behave in a given way are all admissibility conditions on one notion of run. The rules here are
the ones a verification needs: invariants from single steps, observations computed by folding
the outputs, and the erasure of inputs that a machine ignores.
-/

structure Transducer (σ ι ω : Type*) where
  step : σ → ι → σ × ω

namespace Transducer

variable {σ ι ω : Type*} (m : Transducer σ ι ω)

/-- The state an input leads to. -/
def next (s : σ) (input : ι) : σ := (m.step s input).1

/-- The answer to an input. -/
def output (s : σ) (input : ι) : ω := (m.step s input).2

/-- The state after a list of inputs. -/
def run : σ → List ι → σ
  | s, [] => s
  | s, input :: rest => run (m.next s input) rest

/-- The answers to a list of inputs, in order. -/
def outputs : σ → List ι → List ω
  | _, [] => []
  | s, input :: rest => m.output s input :: outputs (m.next s input) rest

theorem run_append (s : σ) (first second : List ι) :
    m.run s (first ++ second) = m.run (m.run s first) second := by
  induction first generalizing s with
  | nil => rfl
  | cons input rest ih => exact ih (m.next s input)

theorem outputs_append (s : σ) (first second : List ι) :
    m.outputs s (first ++ second) = m.outputs s first ++ m.outputs (m.run s first) second := by
  induction first generalizing s with
  | nil => rfl
  | cons input rest ih => exact congrArg (m.output s input :: ·) (ih (m.next s input))

/-- A finite execution whose every input was admissible in the state it met. -/
inductive Run (admissible : σ → ι → Prop) : σ → List ι → σ → Prop
  | nil (s : σ) : Run admissible s [] s
  | cons {s t : σ} {input : ι} {rest : List ι} (allowed : admissible s input)
      (tail : Run admissible (m.next s input) rest t) : Run admissible s (input :: rest) t

namespace Run

variable {m} {admissible : σ → ι → Prop} {s t u : σ} {inputs more : List ι}

/-- An admissible run ends where its inputs lead. -/
theorem run_eq (path : Run m admissible s inputs t) : m.run s inputs = t := by
  induction path with
  | nil _ => rfl
  | cons _ _ ih => exact ih

theorem append (left : Run m admissible s inputs t) (right : Run m admissible t more u) :
    Run m admissible s (inputs ++ more) u := by
  induction left with
  | nil _ => exact right
  | cons allowed _ ih => exact .cons allowed (ih right)

theorem append_iff : Run m admissible s (inputs ++ more) u ↔
    ∃ middle, Run m admissible s inputs middle ∧ Run m admissible middle more u := by
  constructor
  · intro path
    induction inputs generalizing s with
    | nil => exact ⟨s, .nil s, path⟩
    | cons input rest ih =>
      cases path with
      | cons allowed tail =>
        obtain ⟨middle, left, right⟩ := ih tail
        exact ⟨middle, .cons allowed left, right⟩
  · rintro ⟨middle, left, right⟩
    exact left.append right

/-- A property that every admissible step preserves holds throughout a run. -/
theorem invariant {inv : σ → Prop} (initial : inv s)
    (preserved : ∀ current input, admissible current input → inv current → inv (m.next current input))
    (path : Run m admissible s inputs t) : inv t := by
  induction path with
  | nil _ => exact initial
  | cons allowed _ ih => exact ih (preserved _ _ allowed initial)

/-- What holds of every admissible answer holds of all answers of a run. -/
theorem forall_outputs {inv : σ → Prop} {answer : ω → Prop} (initial : inv s)
    (preserved : ∀ current input, admissible current input → inv current → inv (m.next current input))
    (answers : ∀ current input, admissible current input → inv current → answer (m.output current input))
    (path : Run m admissible s inputs t) : ∀ out ∈ m.outputs s inputs, answer out := by
  induction path with
  | nil _ => exact fun _ member => absurd member List.not_mem_nil
  | cons allowed _ ih =>
    intro out member
    rcases List.mem_cons.mp member with rfl | member
    · exact answers _ _ allowed initial
    · exact ih (preserved _ _ allowed initial) out member

end Run

/-- Any inputs at all form a run when nothing is inadmissible. -/
theorem run_free (s : σ) (inputs : List ι) : Run m (fun _ _ => True) s inputs (m.run s inputs) := by
  induction inputs generalizing s with
  | nil => exact .nil s
  | cons input rest ih => exact .cons trivial (ih _)

/-- A property every step preserves holds after any inputs. -/
theorem run_invariant {inv : σ → Prop} (preserved : ∀ s input, inv s → inv (m.next s input))
    {s : σ} (initial : inv s) (inputs : List ι) : inv (m.run s inputs) :=
  (m.run_free s inputs).invariant initial fun current input _ => preserved current input

/-! ## Observations folded from the answers -/

/-- An observation that each step updates from its input and answer is the fold of the trace. -/
theorem run_observe {α : Type*} {inv : σ → Prop} (observe : σ → α) (update : α → ι → ω → α)
    (preserved : ∀ s input, inv s → inv (m.next s input))
    (effect : ∀ s input, inv s → observe (m.next s input) = update (observe s) input (m.output s input))
    {s : σ} (initial : inv s) (inputs : List ι) :
    observe (m.run s inputs) =
      (inputs.zip (m.outputs s inputs)).foldl (fun seen entry => update seen entry.1 entry.2) (observe s) := by
  induction inputs generalizing s with
  | nil => rfl
  | cons input rest ih =>
    rw [run, outputs, List.zip_cons_cons, List.foldl_cons, ← effect s input initial]
    exact ih (preserved s input initial)

/-! ## Machines seen through an abstraction -/

/-- What every step does to the abstract state, a whole run does. -/
theorem run_abstract {τ ω' : Type*} {n : Transducer τ ι ω'} (abstract : σ → τ)
    (simulates : ∀ s input, abstract (m.next s input) = n.next (abstract s) input) (s : σ) (inputs : List ι) :
    abstract (m.run s inputs) = n.run (abstract s) inputs := by
  induction inputs generalizing s with
  | nil => rfl
  | cons input rest ih => rw [run, run, ih, simulates]

/-! ## Inputs a machine ignores -/

/-- Inputs with a mark on the added ones, each added input satisfying `noise` in the state it
meets. -/
def Inserted (noise : σ → ι → Prop) : σ → List (ι × Bool) → Prop
  | _, [] => True
  | s, (input, added) :: rest => (added = true → noise s input) ∧ Inserted noise (m.next s input) rest

/-- The inputs that were there before the marked ones were added. -/
def original (marked : List (ι × Bool)) : List ι :=
  (marked.filter fun entry => !entry.2).map Prod.fst

/-- Adding inputs that a machine ignores leaves the endpoint and every other answer alone. -/
theorem run_inserted {inv : σ → Prop} {noise : σ → ι → Prop} {quiet : ω}
    (preserved : ∀ s input, inv s → inv (m.next s input))
    (ignored : ∀ s input, inv s → noise s input → m.step s input = (s, quiet))
    {s : σ} (initial : inv s) (marked : List (ι × Bool)) (inserted : m.Inserted noise s marked) :
    m.run s (marked.map Prod.fst) = m.run s (original marked) ∧
      ((marked.zip (m.outputs s (marked.map Prod.fst))).filter fun entry => !entry.1.2).map Prod.snd =
        m.outputs s (original marked) ∧
      ∀ entry ∈ marked.zip (m.outputs s (marked.map Prod.fst)), entry.1.2 = true → entry.2 = quiet := by
  induction marked generalizing s with
  | nil => exact ⟨rfl, rfl, fun _ member => absurd member List.not_mem_nil⟩
  | cons head rest ih =>
    rcases head with ⟨input, added⟩
    obtain ⟨isNoise, later⟩ := inserted
    obtain ⟨sameEnd, sameOutputs, quietRest⟩ := ih (preserved s input initial) later
    cases added with
    | true =>
      have step := ignored s input initial (isNoise rfl)
      have stay : m.next s input = s := congrArg Prod.fst step
      have silent : m.output s input = quiet := congrArg Prod.snd step
      rw [stay] at sameEnd sameOutputs quietRest
      simp only [original, List.map_cons, List.filter_cons, Bool.not_true, Bool.false_eq_true,
        ↓reduceIte, run, outputs, List.zip_cons_cons, stay, silent]
      refine ⟨sameEnd, sameOutputs, fun entry member mark => ?_⟩
      rcases List.mem_cons.mp member with rfl | member
      · rfl
      · exact quietRest entry member mark
    | false =>
      simp only [original, List.map_cons, List.filter_cons, Bool.not_false, ↓reduceIte, run, outputs,
        List.zip_cons_cons]
      refine ⟨sameEnd, congrArg (m.output s input :: ·) sameOutputs, fun entry member mark => ?_⟩
      rcases List.mem_cons.mp member with rfl | member
      · contradiction
      · exact quietRest entry member mark

/-! ## Clocks -/

/-- The same machine with the instant of its last input, for inputs that carry one. -/
def clocked {τ : Type*} (time : ι → τ) : Transducer (σ × τ) ι ω where
  step s input := (((m.step s.1 input).1, time input), (m.step s.1 input).2)

/-- Inputs that do not precede the one before. -/
def OnTime {τ : Type*} [LE τ] (time : ι → τ) (s : σ × τ) (input : ι) : Prop := s.2 ≤ time input

end Transducer
