import OpTree.IR.Operation
import Mathlib.Data.List.Basic

/-!
Induction over the tree of operations, and what the walk sees of a tree that was changed in place.
-/

namespace OpTree.IR.Operation

/-- Induction along the nesting: what holds of an operation as soon as it holds of every operation
directly in it holds of all. -/
@[elab_as_elim]
theorem nested_induction {motive : Operation → Prop}
    (nest : ∀ op : Operation,
      (∀ r ∈ op.regions, ∀ b ∈ r.blocks, ∀ c ∈ b.operations, motive c) → motive op)
    (op : Operation) : motive op :=
  nest op fun _ _ _ _ c _ => nested_induction nest c
termination_by op
decreasing_by exact sizeOf_lt ‹_› ‹_› ‹_›

/-- The operations directly in an operation, in order. -/
def children (op : Operation) : List Operation :=
  op.regions.flatMap fun r => r.blocks.flatMap fun b => b.operations

lemma mem_children {op c : Operation} :
    c ∈ op.children ↔ ∃ r ∈ op.regions, ∃ b ∈ r.blocks, c ∈ b.operations := by
  simp only [children, List.mem_flatMap]

lemma walk_eq (op : Operation) : op.walk = op :: op.children.flatMap walk := by
  rw [walk]
  simp only [children, List.flatMap_assoc]

lemma self_mem_walk (op : Operation) : op ∈ op.walk := by
  rw [walk_eq]
  exact .head _

lemma walk_subset {op c : Operation} {r : Region} {b : Block} (hr : r ∈ op.regions)
    (hb : b ∈ r.blocks) (hc : c ∈ b.operations) : c.walk ⊆ op.walk := by
  intro o ho
  rw [walk_eq op]
  exact .tail _ (List.mem_flatMap.mpr ⟨c, mem_children.mpr ⟨r, hr, b, hb, hc⟩, ho⟩)

/-- Induction over the operations directly in an operation. -/
@[elab_as_elim]
theorem children_induction {motive : Operation → Prop}
    (nest : ∀ op : Operation, (∀ c ∈ op.children, motive c) → motive op) (op : Operation) :
    motive op := by
  induction op using nested_induction with
  | nest op ih =>
    refine nest op fun c hc => ?_
    obtain ⟨r, hr, b, hb, hc⟩ := mem_children.mp hc
    exact ih r hr b hb c hc

/-- If a change of operations changes what is in them alike, the walk over a changed tree meets
the changed operations in the old order. -/
theorem walk_of_children {g : Operation → Operation}
    (hg : ∀ op, (g op).children = op.children.map g) (op : Operation) :
    (g op).walk = op.walk.map g := by
  induction op using children_induction with
  | nest op ih =>
    rw [walk_eq, walk_eq op, hg, List.map_cons, List.flatMap_map, List.map_flatMap,
      List.flatMap_congr ih]

lemma children_mapWalk (f : Operation → Operation) (op : Operation) :
    (op.mapWalk f).children = op.children.map (mapWalk f) := by
  rw [mapWalk]
  simp only [children, List.flatMap_map, List.map_flatMap]

theorem walk_mapWalk (f : Operation → Operation) (op : Operation) :
    (op.mapWalk f).walk = op.walk.map (mapWalk f) :=
  walk_of_children (children_mapWalk f) op

end OpTree.IR.Operation
