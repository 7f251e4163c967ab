import OpTree.Print.Flags
import OpTree.Print.Paint

/-!
The state of an output that is written line by line: how deep lines are indented and whether
colours are in use.
-/

namespace OpTree.Print

/-- The state of a line writer. -/
structure Margin where
  level : Nat := 0
  unit : String := "  "
  useColors : Bool := false

namespace Margin

/-- The state at the beginning of an output with these flags. -/
def ofFlags (f : Flags) : Margin where
  unit := f.indent.unit
  useColors := f.useColors

def indent (m : Margin) : Margin := { m with level := m.level + 1 }

/-- One level less; level zero stays. -/
def dedent (m : Margin) : Margin := { m with level := m.level - 1 }

/-- The blanks in front of a line. -/
def text (m : Margin) : String := String.join (List.replicate m.level m.unit)

def line (m : Margin) (s : String) : String := m.text ++ s ++ "\n"

/-- A text in a colour, given by name, on a terminal that can or cannot show colours; a name that
is no colour changes nothing. -/
def colored (m : Margin) (ansi : Bool) (color : String) (s : String) : String :=
  match Color.ofName? color with
  | some c => paint (m.useColors && ansi) c s
  | none => s

end Margin

end OpTree.Print
