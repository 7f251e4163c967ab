import OpTree.Print.Names
import OpTree.Text.Quoted

/-!
Who uses which value. A user is identified by what is printed for it: the name of its first
result, or its quoted operation name if it has no result.
-/

namespace OpTree.Print

open OpTree.IR

/-- What an operation is called as a user. -/
def identity (names : Names) (op : Operation) : String :=
  match op.results with
  | v :: _ => names.name v
  | [] => Text.quote op.name

/-- All uses in a program, in the order of printing: the id used and the user. -/
structure Uses where
  entries : List (ValueId × String)

namespace Uses

def ofOperation (root : Operation) (names : Names) : Uses :=
  ⟨root.walk.flatMap fun op => op.operands.map fun v => (v.id, identity names op)⟩

def ofId (u : Uses) (i : ValueId) : List String :=
  ((u.entries.filter (·.1 = i)).map Prod.snd).eraseDups

/-- The users of the results of an operation, result by result, each user once. -/
def users (u : Uses) (op : Operation) : List String :=
  (op.results.flatMap fun v => u.ofId v.id).eraseDups

end Uses

end OpTree.Print
