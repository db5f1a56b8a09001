import Mathlib.Data.List.Basic

/-! # Length-prefixed frames read in pieces

A frame announces its size in a header of fixed length. A reader that never asks for more than it
knows to be missing follows the stream through its prefixes and stops where the first frame ends,
whatever pieces the stream comes in.
-/

/-- A header length, and the size of a whole frame as its header announces it. -/
structure Framing (α : Type*) where
  header : ℕ
  size : List α → ℕ
  header_le : ∀ buf, header ≤ size buf
  size_append : ∀ buf more, header ≤ buf.length → size (buf ++ more) = size buf

namespace Framing

variable {α : Type*} (framing : Framing α)

/-- How long a buffer must get before more can be said. For a whole stream this is where its first
frame ends. -/
def target (buf : List α) : ℕ := if buf.length < framing.header then framing.header else framing.size buf

theorem header_le_target (buf : List α) : framing.header ≤ framing.target buf := by
  rw [target]
  split_ifs
  · exact Nat.le_refl _
  · exact framing.header_le buf

theorem size_take {stream : List α} {k : ℕ} (within : k ≤ stream.length) (known : framing.header ≤ k) :
    framing.size (stream.take k) = framing.size stream := by
  conv_rhs => rw [← stream.take_append_drop k]
  refine (framing.size_append _ _ ?_).symm
  rwa [List.length_take, Nat.min_eq_left within]

/-- Past the header, a prefix of the stream knows where the frame ends. -/
theorem target_take {stream : List α} {k : ℕ} (within : k ≤ stream.length) (known : framing.header ≤ k) :
    framing.target (stream.take k) = framing.target stream := by
  have length : (stream.take k).length = k := by rw [List.length_take, Nat.min_eq_left within]
  rw [target, target, length, if_neg (by omega), if_neg (by omega), framing.size_take within known]

/-- What a prefix asks for lies within the frame. -/
theorem target_take_le {stream : List α} {k : ℕ} (within : k ≤ stream.length) :
    framing.target (stream.take k) ≤ framing.target stream := by
  by_cases known : framing.header ≤ k
  · exact Nat.le_of_eq (framing.target_take within known)
  · have length : (stream.take k).length = k := by rw [List.length_take, Nat.min_eq_left within]
    rw [target, length, if_pos (by omega)]
    exact framing.header_le_target stream

/-- Before the end of the frame something is still missing. -/
theorem lt_target_take {stream : List α} {k : ℕ} (within : k ≤ stream.length)
    (before : k < framing.target stream) : k < framing.target (stream.take k) := by
  by_cases known : framing.header ≤ k
  · rwa [framing.target_take within known]
  · have := framing.header_le_target (stream.take k)
    omega

end Framing
