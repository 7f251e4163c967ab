import OpTree.IR.Operation

/-!
The symbols of a program and the operations that define them. A symbol may be defined once.
-/

namespace OpTree.Analysis

open OpTree.IR
open OpTree.Data

/-- The symbols of a program in the order of their definitions, each with the name of the
operation that defines it. -/
def symbolDefinitions (op : Operation) : List (String × String) :=
  op.walk.filterMap fun o => o.symbol?.map fun s => (s, o.name)

/-- The first element that equals one before it. -/
def firstRepeated? : (seen : List String) → List String → Option String
  | _, [] => none
  | seen, s :: r => if s ∈ seen then some s else firstRepeated? (s :: seen) r

/-- Symbols with the names of the operations that define them. -/
structure SymbolTable where
  entries : OrderedMap String

namespace SymbolTable

/-- The table of a program, or the symbol whose second definition comes first. -/
def ofOperation (op : Operation) : Except String SymbolTable :=
  let ds := symbolDefinitions op
  match firstRepeated? [] (ds.map Prod.fst) with
  | some s => .error s
  | none => .ok ⟨.ofList ds⟩

/-- The name of the operation that defines a symbol. -/
def lookup? (t : SymbolTable) (symbol : String) : Option String := t.entries.get? symbol

end SymbolTable

end OpTree.Analysis
