import OpTree.Analysis.Counts
import OpTree.Analysis.Fingerprint
import OpTree.Analysis.Id
import OpTree.Analysis.Symbols

/-!
Analyses: what is computed from a program, under a name by which it can be cached. A cache holds
the results of all analyses, so each analysis tells how its results are stored and retrieved.
-/

namespace OpTree.Analysis

open OpTree.IR

/-- A stored result. Results of analyses from elsewhere are of type `ε`. -/
inductive Stored (ε : Type)
  | counts (c : Counts)
  | symbols (t : SymbolTable)
  | other (e : ε)

inductive Error
  | duplicateSymbol (symbol : String)
  /-- What is stored under the name is no result of the analysis. -/
  | unusable (id : Id)
  | reason (text : String)
  deriving DecidableEq

def Error.message : Error → String
  | duplicateSymbol s => "Duplicate symbol: " ++ s
  | unusable i => "Failed to get analysis result for " ++ i.text
  | reason t => t

end OpTree.Analysis

namespace OpTree

/-- An analysis with results of type `ρ`. -/
structure Analysis (ε ρ : Type) where
  id : Analysis.Id
  analyze : IR.Operation → Except Analysis.Error ρ
  store : ρ → Analysis.Stored ε
  retrieve? : Analysis.Stored ε → Option ρ
  retrieve_store : ∀ r, retrieve? (store r) = some r

end OpTree

namespace OpTree.Analysis

/-- How often each operation name occurs. -/
def operationCount (ε : Type) : Analysis ε Counts where
  id := .operationCount
  analyze op := .ok (.ofOperation op)
  store := .counts
  retrieve?
    | .counts c => some c
    | _ => none
  retrieve_store _ := rfl

def symbolTable (ε : Type) : Analysis ε SymbolTable where
  id := .symbolTable
  analyze op := (SymbolTable.ofOperation op).mapError .duplicateSymbol
  store := .symbols
  retrieve?
    | .symbols t => some t
    | _ => none
  retrieve_store _ := rfl

end OpTree.Analysis
