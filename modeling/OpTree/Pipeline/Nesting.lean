/-!
Texts with quotes and braces. A separator counts only at the top: outside of quotes and of all
braces. A text is balanced if its quotes are closed and, outside of quotes, each closing brace
closes one that is open and none is left open.
-/

namespace OpTree.Pipeline

/-- Where a scan of a text stands. -/
structure Nesting where
  quoted : Bool := false
  depth : Nat := 0
  deriving DecidableEq

namespace Nesting

/-- Outside of quotes and braces. -/
def top : Nesting := {}

/-- One character further; `none` at a closing brace where none is open. -/
def step? (n : Nesting) (c : Char) : Option Nesting :=
  if c = '"' then some { n with quoted := !n.quoted }
  else if n.quoted then some n
  else if c = '{' then some { n with depth := n.depth + 1 }
  else if c = '}' then if n.depth = 0 then none else some { n with depth := n.depth - 1 }
  else some n

/-- A whole text further. -/
def scan? (n : Nesting) : List Char → Option Nesting
  | [] => some n
  | c :: r => (n.step? c).bind (scan? · r)

end Nesting

def isBalanced (s : List Char) : Bool := Nesting.top.scan? s == some .top

/-- Why a text is not balanced. -/
inductive Imbalance
  | unopened
  | unclosed
  deriving DecidableEq

/-- A character more at the front of the first piece. -/
def consFirst (c : Char) : List (List Char) → List (List Char)
  | [] => [[c]]
  | p :: ps => (c :: p) :: ps

/-- The pieces between separators at the top, of a text that begins inside `n`. -/
def splitWithin (isSeparator : Char → Bool) (n : Nesting) :
    List Char → Except Imbalance (List (List Char))
  | [] => if n = .top then .ok [[]] else .error .unclosed
  | c :: r =>
    if n = .top ∧ isSeparator c then ([] :: ·) <$> splitWithin isSeparator n r
    else
      match n.step? c with
      | none => .error .unopened
      | some m => consFirst c <$> splitWithin isSeparator m r

/-- The pieces of a text between separators at the top. -/
def splitTop (isSeparator : Char → Bool) (s : List Char) : Except Imbalance (List (List Char)) :=
  splitWithin isSeparator .top s

end OpTree.Pipeline
