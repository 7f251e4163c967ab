import OpTree.Pass.Manager
import OpTree.Print.Paint

/-!
The texts that commands write besides dumps: errors with their causes, and tables.
-/

namespace OpTree.Command

/-- A text filled up with blanks behind it. -/
def padRight (width : Nat) (s : String) : String :=
  s ++ String.ofList (List.replicate (width - s.length) ' ')

/-- A text filled up with blanks before it. -/
def padLeft (width : Nat) (s : String) : String :=
  String.ofList (List.replicate (width - s.length) ' ') ++ s

/-- A text in a style, where colours can be shown. -/
def inStyle (ansi : Bool) (codes s : String) : String :=
  if ansi then Print.styled codes s else s

/-! ### Errors -/

def linesOf : List Char → List (List Char)
  | [] => [[]]
  | '\n' :: r => [] :: linesOf r
  | c :: r =>
    match linesOf r with
    | [] => [[c]]
    | l :: ls => (c :: l) :: ls

/-- A text whose first line stands behind `lead` and the others behind `margin`. -/
def hanging (lead margin : String) (s : String) : String :=
  lead ++ ("\n" ++ margin).intercalate ((linesOf s.toList).map String.ofList)

/-- A cause among several, with its number. -/
def numberedCause (n : Nat) (s : String) : String :=
  hanging (padLeft 5 (toString n) ++ ": ") "       " s

/-- The causes of an error, below each other. -/
def causesText : List String → String
  | [] => ""
  | [c] => "\n\nCaused by:\n" ++ hanging "    " "    " c
  | cs => "\n\nCaused by:\n" ++ "\n".intercalate (cs.mapIdx numberedCause)

/-- An error, given by its message and those of its causes. -/
def errorText : List String → String
  | [] => ""
  | m :: causes => "Error: " ++ m ++ causesText causes ++ "\n"

/-! ### Tables -/

/-- The line for a pass, with the time it took. -/
def statisticLine (ansi : Bool) (time : String) (s : Statistic) : String :=
  let status := if s.failed then inStyle ansi "1;91" "FAILED" else inStyle ansi "92" "ok"
  "  " ++ padRight 20 s.name ++ " " ++ padLeft 10 time ++ "ms  " ++ status ++ "\n"

/-- The table of executed passes, given the time that each took. -/
def statisticsText (ansi : Bool) (time : Nat → String) (l : List Statistic) : String :=
  inStyle ansi "1;96" " Pass statistics" ++ "\n" ++
    inStyle ansi "96" (String.ofList (List.replicate 50 '=')) ++ "\n" ++
    String.join (l.mapIdx fun i s => statisticLine ansi (time i) s)

/-- The line for a pass that pipelines may name. -/
def passLine (ansi : Bool) (name description : String) : String :=
  "  " ++ inStyle ansi "92" (padRight 20 name) ++ " " ++ description ++ "\n"

end OpTree.Command
