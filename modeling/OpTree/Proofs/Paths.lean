import OpTree.IR.Path
import OpTree.Proofs.Tree
import Mathlib.Data.List.Lex

/-!
The paths of a tree in order: the path to an operation stands in front of the paths into it, and
what is further to the front in the tree is further to the front among the paths. The order and the
paths that lead somewhere leave no choice, so they say what it is to meet every operation once and
in pre-order without saying how to go about it; the walk does.
-/

namespace OpTree

open OpTree.IR

/-! ### Positions in a list -/

lemma flatMap_eq_zipIdx {α β : Type} (g : α → List β) (l : List α) :
    l.flatMap g = l.zipIdx.flatMap fun p => g p.1 := by
  calc l.flatMap g
      = (l.zipIdx.map Prod.fst).flatMap g := by rw [List.zipIdx_map_fst]
    _ = l.zipIdx.flatMap fun p => g p.1 := by rw [List.flatMap_map]

lemma pairwise_zipIdx {α : Type} (l : List α) : l.zipIdx.Pairwise fun p q => p.2 < q.2 := by
  rw [← List.pairwise_map (f := Prod.snd) (R := (· < ·)), List.zipIdx_map_snd]
  exact List.pairwise_lt_range' 1

namespace IR

/-- The hop leads further to the front: to an earlier region, to an earlier block of the same
region, or to an earlier operation of the same block. -/
def Hop.Before (h k : Hop) : Prop :=
  h.region < k.region ∨ h.region = k.region ∧
    (h.block < k.block ∨ h.block = k.block ∧ h.operation < k.operation)

instance : Std.Asymm Hop.Before where
  asymm h k := by
    simp only [Hop.Before]
    omega

namespace Operation

/-! ### One hop -/

/-- The hop leads through a region to an operation. -/
structure Leads (op : Operation) (hop : Hop) (r : Region) (b : Block) (c : Operation) : Prop where
  region : op.regions[hop.region]? = some r
  block : r.blocks[hop.block]? = some b
  operation : b.operations[hop.operation]? = some c

lemma child?_eq_some {op c : Operation} {hop : Hop} :
    op.child? hop = some c ↔ ∃ r b, op.Leads hop r b c := by
  simp only [child?, Option.bind_eq_bind, Option.bind_eq_some_iff]
  exact ⟨fun ⟨r, hr, b, hb, hc⟩ => ⟨r, b, hr, hb, hc⟩,
    fun ⟨r, b, h⟩ => ⟨r, h.region, b, h.block, h.operation⟩⟩

/-- The operations directly in an operation, each with the hop that leads to it. -/
def hops (op : Operation) : List (Hop × Operation) :=
  op.regions.zipIdx.flatMap fun r => r.1.blocks.zipIdx.flatMap fun b =>
    b.1.operations.zipIdx.map fun c => (⟨r.2, b.2, c.2⟩, c.1)

lemma mem_hops {op : Operation} {x : Hop × Operation} :
    x ∈ op.hops ↔ op.child? x.1 = some x.2 := by
  simp only [hops, List.mem_flatMap, List.mem_map, List.mem_zipIdx_iff_getElem?, child?_eq_some]
  constructor
  · rintro ⟨⟨r, i⟩, hr, ⟨b, j⟩, hb, ⟨c, k⟩, hc, rfl⟩
    exact ⟨r, b, hr, hb, hc⟩
  · rintro ⟨r, b, hr, hb, hc⟩
    exact ⟨(r, x.1.region), hr, (b, x.1.block), hb, (x.2, x.1.operation), hc, rfl⟩

lemma map_snd_hops (op : Operation) : op.hops.map Prod.snd = op.children := by
  have hblock (i j : ℕ) (b : Block) :
      (b.operations.zipIdx.map fun c => ((⟨i, j, c.2⟩ : Hop), c.1)).map Prod.snd =
        b.operations := by
    rw [List.map_map]
    exact List.zipIdx_map_fst 0 b.operations
  simp only [hops, List.map_flatMap, hblock, children]
  rw [flatMap_eq_zipIdx _ op.regions]
  exact List.flatMap_congr fun r _ => (flatMap_eq_zipIdx Block.operations r.1.blocks).symm

lemma mem_children_of_mem_hops {op : Operation} {x : Hop × Operation} (hx : x ∈ op.hops) :
    x.2 ∈ op.children :=
  op.map_snd_hops ▸ List.mem_map_of_mem hx

lemma pairwise_hops (op : Operation) : op.hops.Pairwise fun x y => x.1.Before y.1 := by
  have hblock (i j : ℕ) (b : Block) :
      (b.operations.zipIdx.map fun c => ((⟨i, j, c.2⟩ : Hop), c.1)).Pairwise
        fun x y => x.1.Before y.1 :=
    List.pairwise_map.mpr <| (pairwise_zipIdx b.operations).imp fun h => .inr ⟨rfl, .inr ⟨rfl, h⟩⟩
  rw [hops, List.pairwise_flatMap]
  refine ⟨fun r _ => List.pairwise_flatMap.mpr ⟨fun b _ => hblock r.2 b.2 b.1, ?_⟩, ?_⟩
  · -- two blocks of one region
    refine (pairwise_zipIdx r.1.blocks).imp fun h x hx y hy => ?_
    obtain ⟨c, -, rfl⟩ := List.mem_map.mp hx
    obtain ⟨d, -, rfl⟩ := List.mem_map.mp hy
    exact .inr ⟨rfl, .inl h⟩
  · -- two regions
    refine (pairwise_zipIdx op.regions).imp fun h x hx y hy => ?_
    obtain ⟨b, -, hx⟩ := List.mem_flatMap.mp hx
    obtain ⟨b', -, hy⟩ := List.mem_flatMap.mp hy
    obtain ⟨c, -, rfl⟩ := List.mem_map.mp hx
    obtain ⟨d, -, rfl⟩ := List.mem_map.mp hy
    exact .inl h

lemma sizeOf_lt_of_mem_hops {op : Operation} {x : Hop × Operation} (hx : x ∈ op.hops) :
    sizeOf x.2 < sizeOf op := by
  obtain ⟨r, hr, b, hb, hc⟩ := mem_children.mp (mem_children_of_mem_hops hx)
  exact sizeOf_lt hr hb hc

/-! ### Paths -/

/-- The paths to the operations of a tree. -/
def paths (op : Operation) : List (List Hop) :=
  [] :: op.hops.attach.flatMap fun x => (paths x.1.2).map (x.1.1 :: ·)
termination_by op
decreasing_by exact sizeOf_lt_of_mem_hops x.2

lemma paths_eq (op : Operation) :
    op.paths = [] :: op.hops.flatMap fun x => x.2.paths.map (x.1 :: ·) := by
  rw [paths, List.flatMap_subtype (g := fun x => x.2.paths.map (x.1 :: ·)) fun _ _ => rfl,
    List.unattach_attach]

theorem mem_paths {op : Operation} {path : List Hop} :
    path ∈ op.paths ↔ (op.at? path).isSome := by
  induction path generalizing op with
  | nil =>
    rw [paths_eq]
    exact iff_of_true (.head _) rfl
  | cons h path ih =>
    have hstep : (h :: path) ∈ op.paths ↔ ∃ c, op.child? h = some c ∧ path ∈ c.paths := by
      rw [paths_eq, List.mem_cons, List.mem_flatMap]
      constructor
      · rintro (hnil | ⟨x, hx, hpath⟩)
        · cases hnil
        · obtain ⟨p, hp, heq⟩ := List.mem_map.mp hpath
          obtain ⟨rfl, rfl⟩ := List.cons.inj heq
          exact ⟨x.2, mem_hops.mp hx, hp⟩
      · rintro ⟨c, hc, hp⟩
        exact .inr ⟨(h, c), mem_hops.mpr hc, List.mem_map_of_mem hp⟩
    rw [hstep, at?]
    cases op.child? h with
    | none => simp
    | some c => simp [ih]

/-- The walk meets the operations in the order of their paths. -/
theorem map_at?_paths (op : Operation) : op.paths.map op.at? = op.walk.map some := by
  induction op using children_induction with
  | nest op ih =>
    have hhop : ∀ x ∈ op.hops, (x.2.paths.map (x.1 :: ·)).map op.at? = x.2.walk.map some := by
      intro x hx
      have hat (path : List Hop) : op.at? (x.1 :: path) = x.2.at? path := by
        rw [at?, mem_hops.mp hx, Option.bind_some]
      rw [List.map_map, ← ih x.2 (mem_children_of_mem_hops hx)]
      exact List.map_congr_left fun path _ => hat path
    rw [paths_eq, walk_eq, ← map_snd_hops, List.map_cons, List.map_cons, List.map_flatMap,
      List.flatMap_congr hhop, List.flatMap_map, List.map_flatMap]
    rfl

theorem pairwise_paths (op : Operation) : op.paths.Pairwise (List.Lex Hop.Before) := by
  induction op using children_induction with
  | nest op ih =>
    rw [paths_eq, List.pairwise_cons, List.pairwise_flatMap]
    refine ⟨fun path hpath => ?_, fun x hx => ?_, op.pairwise_hops.imp fun h p hp q hq => ?_⟩
    · -- the operation itself comes first
      obtain ⟨x, -, hpath⟩ := List.mem_flatMap.mp hpath
      obtain ⟨p, -, rfl⟩ := List.mem_map.mp hpath
      exact .nil
    · exact List.pairwise_map.mpr ((ih x.2 (mem_children_of_mem_hops hx)).imp .cons)
    · obtain ⟨p, -, rfl⟩ := List.mem_map.mp hp
      obtain ⟨q, -, rfl⟩ := List.mem_map.mp hq
      exact .rel h

/-- Every path that leads to an operation stands among the paths, in order. -/
structure Itinerary (op : Operation) (paths : List (List Hop)) : Prop where
  leads : ∀ path, path ∈ paths ↔ (op.at? path).isSome
  ordered : paths.Pairwise (List.Lex Hop.Before)

theorem itinerary_paths (op : Operation) : op.Itinerary op.paths where
  leads _ := mem_paths
  ordered := op.pairwise_paths

namespace Itinerary

variable {op : Operation} {ps qs : List (List Hop)}

lemma nodup (h : op.Itinerary ps) : ps.Nodup :=
  h.ordered.imp fun {p q} hpq (heq : p = q) => asymm hpq (heq ▸ hpq)

theorem unique (hp : op.Itinerary ps) (hq : op.Itinerary qs) : ps = qs := by
  have hperm : ps.Perm qs := by
    rw [List.perm_ext_iff_of_nodup hp.nodup hq.nodup]
    intro path
    rw [hp.leads, hq.leads]
  exact hperm.eq_of_pairwise (fun _ _ _ _ h h' => absurd h' (asymm h)) hp.ordered hq.ordered

end Itinerary

end Operation

end IR

end OpTree
