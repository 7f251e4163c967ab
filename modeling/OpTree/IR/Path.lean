import OpTree.IR.Operation

/-!
Paths into a tree: from an operation to one nested in it, by the positions of a region, of a
block in it and of an operation in that.
-/

namespace OpTree.IR

/-- One step down: the positions of region, block and operation. -/
structure Hop where
  region : Nat
  block : Nat
  operation : Nat
  deriving DecidableEq

namespace Operation

def child? (op : Operation) (h : Hop) : Option Operation := do
  let r ← op.regions[h.region]?
  let b ← r.blocks[h.block]?
  b.operations[h.operation]?

/-- The operation at the end of a path, if the path leads to one. -/
def at? (op : Operation) : List Hop → Option Operation
  | [] => some op
  | h :: hs => (op.child? h).bind (at? · hs)

/-- The tree with the operation one step down changed. -/
def modifyChild (f : Operation → Operation) (op : Operation) (h : Hop) : Operation :=
  { op with
    regions := op.regions.modify h.region fun r =>
      { blocks := r.blocks.modify h.block fun b =>
          { b with operations := b.operations.modify h.operation f } } }

/-- The tree with the operation at the end of a path changed. -/
def modifyAt (f : Operation → Operation) (op : Operation) : List Hop → Operation
  | [] => f op
  | h :: hs => op.modifyChild (modifyAt f · hs) h

end Operation

end OpTree.IR
