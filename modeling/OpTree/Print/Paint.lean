/-!
Coloured text for terminals: a text between the start sequence of a style and a reset. A reset
inside the text would end the style early, so the style is started again behind it.
-/

namespace OpTree.Print

/-- A colour of the text form. -/
inductive Color
  | red
  | green
  | yellow
  | blue
  | magenta
  | cyan
  | brightBlack
  deriving DecidableEq

namespace Color

/-- The number of a colour in a start sequence. -/
def code : Color → String
  | red => "31"
  | green => "32"
  | yellow => "33"
  | blue => "34"
  | magenta => "35"
  | cyan => "36"
  | brightBlack => "90"

def ofName? : String → Option Color
  | "red" => some red
  | "green" => some green
  | "yellow" => some yellow
  | "blue" => some blue
  | "magenta" => some magenta
  | "cyan" => some cyan
  | "bright_black" => some brightBlack
  | _ => none

end Color

def reset : List Char := ['\x1b', '[', '0', 'm']

/-- The text with a style started again behind each reset. -/
def reopen (start : List Char) : List Char → List Char
  | '\x1b' :: '[' :: '0' :: 'm' :: r => reset ++ start ++ reopen start r
  | c :: r => c :: reopen start r
  | [] => []

/-- The text in a style, given by its numbers. -/
def styled (codes : String) (s : String) : String :=
  let start := ['\x1b', '['] ++ codes.toList ++ ['m']
  String.ofList (start ++ reopen start s.toList ++ reset)

/-- The text in a colour, where colours can be shown. -/
def paint (colors : Bool) (c : Color) (s : String) : String :=
  if colors then styled c.code s else s

end OpTree.Print
