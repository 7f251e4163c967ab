import OpTree.IR.Attribute

/-!
The tree of operations. An operation owns regions, a region owns blocks, and a block owns
further operations; a whole program is one operation.

Every traversal is a recursion along `Operation.sizeOf_lt`, with one equation that maps over
regions, blocks and operations.
-/

namespace OpTree.IR

open OpTree.Data

mutual

/-- A node of the tree. -/
structure Operation where
  name : String
  operands : List Value := []
  results : List Value := []
  attributes : OrderedMap Attribute := .empty
  regions : List Region := []
  location : Location := .unknown

/-- A part of an operation's body. -/
structure Region where
  blocks : List Block

structure Block where
  arguments : List Value := []
  operations : List Operation := []

end

instance : Inhabited Operation := ⟨{ name := "" }⟩
instance : Inhabited Region := ⟨{ blocks := [] }⟩
instance : Inhabited Block := ⟨{}⟩

namespace Region

def isEmpty (r : Region) : Bool := r.blocks.isEmpty

end Region

namespace Operation

/-- A nested operation is smaller than the one around it. -/
theorem sizeOf_lt {op : Operation} {r : Region} {b : Block} {c : Operation}
    (hr : r ∈ op.regions) (hb : b ∈ r.blocks) (hc : c ∈ b.operations) :
    sizeOf c < sizeOf op := by
  have h1 := List.sizeOf_lt_of_mem hr
  have h2 := List.sizeOf_lt_of_mem hb
  have h3 := List.sizeOf_lt_of_mem hc
  cases op; cases r; cases b
  simp at *
  omega

/-- The operation and everything nested in it, each before what it contains. -/
def walk (op : Operation) : List Operation :=
  op :: op.regions.flatMap fun r => r.blocks.flatMap fun b => b.operations.flatMap walk
termination_by op
decreasing_by exact sizeOf_lt ‹_› ‹_› ‹_›

/-- The tree with `f` applied to every operation. What `f` does to the regions of an operation is
not kept: they are those it had, with `f` applied inside. -/
def mapWalk (f : Operation → Operation) (op : Operation) : Operation :=
  { f op with
    regions := op.regions.map fun r =>
      { blocks := r.blocks.map fun b =>
          { b with operations := b.operations.map (mapWalk f) } } }
termination_by op
decreasing_by exact sizeOf_lt ‹_› ‹_› ‹_›

/-- How many operations the tree holds. -/
def count (op : Operation) : Nat := op.walk.length

/-- The part of a name before its first dot; empty if there is none. -/
def dialect (op : Operation) : String :=
  if '.' ∈ op.name.toList then String.ofList (op.name.toList.takeWhile (· ≠ '.')) else ""

def attribute? (op : Operation) (name : String) : Option Attribute := op.attributes.get? name

/-- The symbol that an operation defines: its attribute `sym_name`, if that is a string. -/
def symbol? (op : Operation) : Option String :=
  match op.attribute? "sym_name" with
  | some (.string s) => some s
  | _ => none

mutual

/-- Equality of trees: attributes in any order and floating point numbers as numbers, everything
else part by part. -/
def same (a b : Operation) : Bool :=
  a.name == b.name && a.operands == b.operands && a.results == b.results &&
    Attribute.sameMap a.attributes b.attributes && sameRegions a.regions b.regions &&
    Location.beq a.location b.location
termination_by sizeOf a
decreasing_by cases a; simp; omega

def sameRegions : List Region → List Region → Bool
  | [], [] => true
  | r :: rs, s :: ss => sameBlocks r.blocks s.blocks && sameRegions rs ss
  | _, _ => false
termination_by rs => sizeOf rs
decreasing_by all_goals (cases r; simp <;> omega)

def sameBlocks : List Block → List Block → Bool
  | [], [] => true
  | b :: bs, c :: cs =>
    b.arguments == c.arguments && sameOperations b.operations c.operations && sameBlocks bs cs
  | _, _ => false
termination_by bs => sizeOf bs
decreasing_by all_goals (cases b; simp <;> omega)

def sameOperations : List Operation → List Operation → Bool
  | [], [] => true
  | a :: as, b :: bs => same a b && sameOperations as bs
  | _, _ => false
termination_by as => sizeOf as

end

end Operation

end OpTree.IR
