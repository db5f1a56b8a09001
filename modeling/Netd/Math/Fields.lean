import Mathlib.Data.List.Perm.Basic
import Mathlib.Data.List.Nodup

/-! # Records gathered field by field

A record is filled from a list of keyed fields, each with its effect on what has been gathered. Where
effects of different keys commute, a record does not depend on the order of its fields; a field
without an effect may stand anywhere.
-/

universe u v w

/-- What the fields of a record may be, by the effect of each. -/
structure Fields (κ : Type u) (δ : Type v) (σ : Type w) where
  sets : κ → δ → (σ → σ) → Prop
  commute : ∀ {first second : κ} {d e : δ} {f g : σ → σ}, sets first d f → sets second e g → first ≠ second →
    ∀ record, f (g record) = g (f record)

namespace Fields

variable {κ : Type u} {δ : Type v} {σ : Type w} (fields : Fields κ δ σ)

/-- A record with the effect of one more field; written so that a long record stays a list of effects. -/
def set (effect : σ → σ) (record : σ) : σ := effect record

/-- What a list of fields makes of what was gathered before. -/
inductive Gathers : σ → List (κ × δ) → σ → Prop
  | nil (record : σ) : Gathers record [] record
  | cons {record result : σ} {key : κ} {value : δ} {effect : σ → σ} {rest : List (κ × δ)}
      (sets : fields.sets key value effect) (tail : Gathers (set effect record) rest result) :
      Gathers record ((key, value) :: rest) result

namespace Gathers

variable {fields} {record result : σ} {first second : List (κ × δ)}

theorem done (same : record = result) : Gathers fields record [] result := same ▸ .nil record

theorem append_iff :
    Gathers fields record (first ++ second) result ↔
      ∃ middle, Gathers fields record first middle ∧ Gathers fields middle second result := by
  induction first generalizing record with
  | nil =>
    constructor
    · intro gathers
      exact ⟨record, .nil record, gathers⟩
    · rintro ⟨middle, before, after⟩
      cases before with
      | nil => exact after
  | cons field rest ih =>
    constructor
    · intro gathers
      cases gathers with
      | cons sets tail =>
        obtain ⟨middle, before, after⟩ := ih.mp tail
        exact ⟨middle, .cons sets before, after⟩
    · rintro ⟨middle, before, after⟩
      cases before with
      | cons sets tail => exact .cons sets (ih.mpr ⟨middle, tail, after⟩)

/-- The order of fields with different keys does not matter. -/
theorem perm (gathers : Gathers fields record first result) (same : first.Perm second)
    (distinct : (first.map Prod.fst).Nodup) : Gathers fields record second result := by
  induction same generalizing record with
  | nil => exact gathers
  | cons field _ ih =>
    cases gathers with
    | cons sets tail => exact .cons sets (ih tail (List.nodup_cons.mp distinct).2)
  | swap second first rest =>
    obtain ⟨apart, _⟩ := List.nodup_cons.mp distinct
    have different : first.1 ≠ second.1 := fun same => apart (by rw [List.map_cons, same]; exact List.mem_cons_self)
    cases gathers with
    | cons early tail =>
      cases tail with
      | cons late tail =>
        rw [set, set, ← fields.commute early late different] at tail
        exact .cons late (.cons early tail)
  | trans before _ ih₁ ih₂ =>
    exact ih₂ (ih₁ gathers distinct) ((before.map _).nodup_iff.mp distinct)

/-- A field without an effect may stand anywhere. -/
theorem insert {key : κ} {value : δ} (idle : fields.sets key value id)
    (gathers : Gathers fields record (first ++ second) result) :
    Gathers fields record (first ++ (key, value) :: second) result := by
  obtain ⟨middle, before, after⟩ := append_iff.mp gathers
  exact append_iff.mpr ⟨middle, before, .cons idle after⟩

/-- A value may be replaced by one that has the same effect. -/
theorem replace {key : κ} {value other : δ} (same : ∀ effect, fields.sets key value effect → fields.sets key other effect)
    (gathers : Gathers fields record (first ++ (key, value) :: second) result) :
    Gathers fields record (first ++ (key, other) :: second) result := by
  obtain ⟨middle, before, after⟩ := append_iff.mp gathers
  cases after with
  | cons sets tail => exact append_iff.mpr ⟨middle, before, .cons (same _ sets) tail⟩

end Gathers

end Fields
