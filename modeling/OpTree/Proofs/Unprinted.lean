import OpTree.Print.Lines
import OpTree.Proofs.Tree

/-!
Changes that a printer does not see. What is made of the name, the operands and the results of
operations stays the same if these stay the same; so a changed program is printed as before as soon
as each operation in it still ends as before.
-/

namespace OpTree

open OpTree.IR

namespace IR

section

variable (g : Operation → Operation)

/-- The block with a change made to all operations in it. -/
def Block.mapWalk (b : Block) : Block :=
  { b with operations := b.operations.map (Operation.mapWalk g) }

/-- The region with a change made to all operations in it. -/
def Region.mapWalk (r : Region) : Region := { blocks := r.blocks.map (Block.mapWalk g) }

lemma Operation.mapWalk_eq (op : Operation) :
    op.mapWalk g = { g op with regions := op.regions.map (Region.mapWalk g) } := by
  rw [mapWalk]
  rfl

end

/-- The change leaves alone what an operation is called, what it uses and what it defines. -/
structure Operation.KeepsValues (g : Operation → Operation) : Prop where
  name : ∀ op, (g op).name = op.name
  operands : ∀ op, (g op).operands = op.operands
  results : ∀ op, (g op).results = op.results

namespace Operation.KeepsValues

variable {g : Operation → Operation} (hg : KeepsValues g)

include hg

lemma mapWalk : KeepsValues (Operation.mapWalk g) where
  name op := by
    rw [mapWalk_eq]
    exact hg.name op
  operands op := by
    rw [mapWalk_eq]
    exact hg.operands op
  results op := by
    rw [mapWalk_eq]
    exact hg.results op

end Operation.KeepsValues

end IR

namespace Print

open Operation

variable {g : Operation → Operation} (hg : KeepsValues g)

include hg

/-! ### Names and users -/

lemma definitions_mapWalk (op : Operation) : definitions (op.mapWalk g) = definitions op := by
  induction op using nested_induction with
  | nest op ih =>
    have hregions : (op.mapWalk g).regions = op.regions.map (Region.mapWalk g) := by rw [mapWalk_eq]
    rw [definitions, definitions, hg.mapWalk.results, hregions]
    simp only [Region.mapWalk, Block.mapWalk, List.flatMap_map]
    congr 1
    refine List.flatMap_congr fun r hr => List.flatMap_congr fun b hb => ?_
    rw [List.flatMap_congr (ih r hr b hb)]

lemma names_mapWalk (op : Operation) :
    Names.ofOperation (op.mapWalk g) = Names.ofOperation op := by
  rw [Names.ofOperation, Names.ofOperation, definitions_mapWalk hg]

lemma uses_mapWalk (op : Operation) (names : Names) :
    Uses.ofOperation (op.mapWalk g) names = Uses.ofOperation op names := by
  have hidentity (o : Operation) : identity names (o.mapWalk g) = identity names o := by
    rw [identity, identity, hg.mapWalk.results, hg.mapWalk.name]
  simp only [Uses.ofOperation, walk_mapWalk, List.flatMap_map, hg.mapWalk.operands, hidentity]

/-! ### Lines -/

lemma signature_mapWalk (op : Operation) : signature (op.mapWalk g) = signature op := by
  rw [signature, signature, hg.mapWalk.operands, hg.mapWalk.results]

namespace Session

lemma ofOperation_mapWalk (ansi : Bool) (f : Flags) (op : Operation) :
    ofOperation ansi f (op.mapWalk g) = ofOperation ansi f op := by
  simp only [ofOperation, names_mapWalk hg, uses_mapWalk hg]

variable (s : Session)

lemma head_mapWalk (op : Operation) : s.head (op.mapWalk g) = s.head op := by
  rw [head, head, hg.mapWalk.name, hg.mapWalk.operands, hg.mapWalk.results]

lemma usersComment_mapWalk (op : Operation) :
    s.usersComment (op.mapWalk g) = s.usersComment op := by
  have husers (u : Uses) : u.users (op.mapWalk g) = u.users op := by
    rw [Uses.users, Uses.users, hg.mapWalk.results]
  simp only [usersComment, husers]

omit hg in
lemma blockLines_mapWalk (level i : ℕ) (bs : List Block) (nested : Block → List Line) :
    s.blockLines level i (bs.map fun b => (b.mapWalk g, nested b)) =
      s.blockLines level i (bs.map fun b => (b, nested b)) := by
  induction bs generalizing i with
  | nil => rfl
  | cons b bs ih =>
    simp only [List.map_cons, blockLines, ih]
    rfl

/-- **A change shows in the lines only where operations end.** -/
theorem lines_mapWalk (htail : ∀ o, s.tail (o.mapWalk g) = s.tail o) (level : ℕ)
    (op : Operation) : s.lines level (op.mapWalk g) = s.lines level op := by
  induction op using nested_induction generalizing level with
  | nest op ih =>
    have hregion : ∀ r ∈ op.regions,
        s.blockLines level 0 ((r.mapWalk g).blocks.map fun b =>
          (b, b.operations.flatMap (s.lines (level + 1)))) =
        s.blockLines level 0 (r.blocks.map fun b =>
          (b, b.operations.flatMap (s.lines (level + 1)))) := by
      intro r hr
      have hnested : ∀ b ∈ r.blocks, (b.mapWalk g).operations.flatMap (s.lines (level + 1)) =
          b.operations.flatMap (s.lines (level + 1)) := by
        intro b hb
        rw [Block.mapWalk, List.flatMap_map]
        exact List.flatMap_congr fun o ho => ih r hr b hb o ho (level + 1)
      rw [Region.mapWalk, List.map_map, ← blockLines_mapWalk]
      congr 1
      exact List.map_congr_left fun b hb => by rw [Function.comp_apply, hnested b hb]
    have hregions : (op.mapWalk g).regions = op.regions.map (Region.mapWalk g) := by rw [mapWalk_eq]
    rw [lines, lines, head_mapWalk hg, htail, hregions]
    simp only [List.isEmpty_map, List.map_map, Function.comp_def, List.map_congr_left hregion]

end Session

end Print

end OpTree
