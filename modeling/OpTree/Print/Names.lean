import OpTree.IR.Operation

/-!
Names for the values of a program: `%0`, `%1`, … for results and `%arg0`, `%arg1`, … for block
arguments, both in the order in which the program is printed. They depend on where values are
defined and not on their ids.
-/

namespace OpTree.Print

open OpTree.IR

/-- A place where a value is defined. -/
inductive Definition
  | result (id : ValueId)
  | argument (id : ValueId)
  deriving DecidableEq

def Definition.id : Definition → ValueId
  | result i => i
  | argument i => i

def definitions (op : Operation) : List Definition :=
  op.results.map (fun v => .result v.id) ++ op.regions.flatMap fun r => r.blocks.flatMap fun b =>
    b.arguments.map (fun v => .argument v.id) ++ b.operations.flatMap definitions
termination_by op
decreasing_by exact Operation.sizeOf_lt ‹_› ‹_› ‹_›

/-- The definitions with their names, counting on from the given numbers. -/
def numbered (results arguments : Nat) : List Definition → List (ValueId × String)
  | [] => []
  | .result i :: ds => (i, "%" ++ toString results) :: numbered (results + 1) arguments ds
  | .argument i :: ds => (i, "%arg" ++ toString arguments) :: numbered results (arguments + 1) ds

/-- The named definitions of a program. -/
structure Names where
  entries : List (ValueId × String)

namespace Names

def ofOperation (root : Operation) : Names := ⟨numbered 0 0 (definitions root)⟩

/-- What stands for a value that is defined nowhere. -/
def unknown : String := "<<UNKNOWN SSA VALUE>>"

/-- The name that an id has by its first definition. -/
def find? (n : Names) (i : ValueId) : Option String :=
  (n.entries.find? (·.1 = i)).map Prod.snd

def name (n : Names) (v : Value) : String := (n.find? v.id).getD unknown

def ids (n : Names) : List ValueId := (n.entries.map Prod.fst).eraseDups

def size (n : Names) : Nat := n.ids.length

def isEmpty (n : Names) : Bool := n.entries.isEmpty

end Names

end OpTree.Print
