import OpTree.IR.Operation

/-!
How often each operation name occurs in a program.
-/

namespace OpTree.Analysis

open OpTree.IR
open OpTree.Data

/-- Numbers of occurrences by name, in order of first occurrence. -/
structure Counts where
  entries : OrderedMap Nat

namespace Counts

def bump (m : OrderedMap Nat) (name : String) : OrderedMap Nat :=
  m.insert name ((m.get? name).getD 0 + 1)

def ofOperation (op : Operation) : Counts :=
  ⟨op.walk.foldl (fun m o => bump m o.name) .empty⟩

def get (c : Counts) (name : String) : Nat := (c.entries.get? name).getD 0

def total (c : Counts) : Nat := c.entries.values.foldr (· + ·) 0

end Counts

end OpTree.Analysis
