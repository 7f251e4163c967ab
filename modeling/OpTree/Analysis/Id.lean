import OpTree.Text.Quoted

/-!
The names of analyses, and the sets of analyses that stay valid when a program is changed.
-/

namespace OpTree.Analysis

inductive Id
  | operationCount
  | symbolTable
  | custom (name : String)
  deriving DecidableEq

def Id.text : Id → String
  | operationCount => "OperationCount"
  | symbolTable => "SymbolTable"
  | custom n => "Custom(" ++ Text.quote n ++ ")"

/-- The analyses that are kept: those named, or all. -/
structure Preserved where
  all : Bool := false
  ids : List Id := []
  deriving DecidableEq

namespace Preserved

def nothing : Preserved := {}

/-- Everything is kept, and nothing by name. -/
def everything : Preserved := { all := true }

def add (p : Preserved) (i : Id) : Preserved :=
  if i ∈ p.ids then p else { p with ids := p.ids ++ [i] }

/-- Keeps all analyses, those not named too. -/
def addAll (p : Preserved) : Preserved := { p with all := true }

def keeps (p : Preserved) (i : Id) : Bool := p.all || p.ids.contains i

/-- The same is kept in the same way: by name or as everything. -/
def same (p q : Preserved) : Bool :=
  p.all == q.all && p.ids.all q.ids.contains && q.ids.all p.ids.contains

end Preserved

end OpTree.Analysis
