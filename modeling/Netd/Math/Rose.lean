import Mathlib.Data.List.Basic

/-! # Trees with paths

A tree with any number of subtrees at each node, known only by how its subtrees are listed and how the
path of a node goes on from that of the one above. What a pass over trees does to each node it does
at the path of that node, whatever is read or counted on the way.
-/

universe u v w

/-- How the trees of a type are laid out. -/
structure Rose (τ : Type u) (κ : Type w) where
  children : τ → List τ
  extend : κ → τ → κ

namespace Rose

variable {τ : Type u} {σ : Type v} {κ : Type w}

/-- The nodes of some trees that stand below a path, each with its own path. -/
inductive Reached (rose : Rose τ κ) : κ → List τ → κ → τ → Prop
  | here {start : κ} {trees : List τ} {tree : τ} (member : tree ∈ trees) :
      Reached rose start trees (rose.extend start tree) tree
  | under {start : κ} {trees : List τ} {parent : τ} {path : κ} {tree : τ} (member : parent ∈ trees)
      (reached : Reached rose (rose.extend start parent) (rose.children parent) path tree) :
      Reached rose start trees path tree

theorem Reached.mono {rose : Rose τ κ} {start path : κ} {trees more : List τ} {tree : τ}
    (reached : rose.Reached start trees path tree) (subset : trees ⊆ more) :
    rose.Reached start more path tree := by
  cases reached with
  | here member => exact .here (subset member)
  | under member reached => exact .under (subset member) reached

/-- Nodes related to nodes at the same path, with every subtree related to a subtree. -/
structure Simulation (rose : Rose τ κ) (other : Rose σ κ) (related : τ → σ → Prop) : Prop where
  extend : ∀ {tree : τ} {image : σ}, related tree image → ∀ path, rose.extend path tree = other.extend path image
  children : ∀ {tree : τ} {image : σ}, related tree image →
    ∀ child ∈ rose.children tree, ∃ below ∈ other.children image, related child below

/-- What is reached in trees that come from others comes from what is reached there. -/
theorem Reached.simulate {rose : Rose τ κ} {other : Rose σ κ} {related : τ → σ → Prop}
    (simulation : Simulation rose other related) {start path : κ} {trees : List τ} {tree : τ}
    (reached : rose.Reached start trees path tree) {images : List σ}
    (each : ∀ tree ∈ trees, ∃ image ∈ images, related tree image) :
    ∃ image, other.Reached start images path image ∧ related tree image := by
  induction reached generalizing images with
  | here member =>
    obtain ⟨image, there, relates⟩ := each _ member
    refine ⟨image, ?_, relates⟩
    rw [simulation.extend relates]
    exact .here there
  | under member reached ih =>
    obtain ⟨image, there, relates⟩ := each _ member
    obtain ⟨node, found, same⟩ := ih (simulation.children relates)
    refine ⟨node, .under there ?_, same⟩
    rw [← simulation.extend relates]
    exact found

/-- The same trees in another order, beside each other and under every node. -/
inductive Rearranged (rose : Rose τ κ) (other : Rose σ κ) (related : τ → σ → Prop) : List τ → List σ → Prop
  | nil : Rearranged rose other related [] []
  | cons {tree : τ} {image : σ} {trees : List τ} {before after : List σ} (here : related tree image)
      (below : Rearranged rose other related (rose.children tree) (other.children image))
      (beside : Rearranged rose other related trees (before ++ after)) :
      Rearranged rose other related (tree :: trees) (before ++ image :: after)

theorem Rearranged.exists_image {rose : Rose τ κ} {other : Rose σ κ} {related : τ → σ → Prop} {trees : List τ}
    {images : List σ} (same : rose.Rearranged other related trees images) :
    ∀ tree ∈ trees, ∃ image ∈ images, related tree image ∧
      rose.Rearranged other related (rose.children tree) (other.children image) := by
  induction same with
  | nil => exact List.forall_mem_nil _
  | cons here below beside _ ih =>
    refine List.forall_mem_cons.mpr ⟨⟨_, List.mem_append_right _ List.mem_cons_self, here, below⟩, fun tree member => ?_⟩
    obtain ⟨image, there, both⟩ := ih tree member
    refine ⟨image, ?_, both⟩
    obtain front | back := List.mem_append.mp there
    · exact List.mem_append_left _ front
    · exact List.mem_append_right _ (List.mem_cons_of_mem _ back)

theorem Rearranged.exists_origin {rose : Rose τ κ} {other : Rose σ κ} {related : τ → σ → Prop} {trees : List τ}
    {images : List σ} (same : rose.Rearranged other related trees images) :
    ∀ image ∈ images, ∃ tree ∈ trees, related tree image ∧
      rose.Rearranged other related (rose.children tree) (other.children image) := by
  induction same with
  | nil => exact List.forall_mem_nil _
  | @cons tree image trees before after here below beside _ ih =>
    intro found member
    have split : found = image ∨ found ∈ before ++ after := by
      rwa [← List.mem_cons, ← List.perm_middle.mem_iff]
    obtain rfl | member := split
    · exact ⟨tree, List.mem_cons_self, here, below⟩
    · obtain ⟨origin, there, both⟩ := ih found member
      exact ⟨origin, List.mem_cons_of_mem _ there, both⟩

end Rose
