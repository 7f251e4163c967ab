import OpTree.Json.Numeral

/-!
JSON values to be written, and their two texts: one without any white space, and one with a
line per item and two spaces of indentation per level.
-/

namespace OpTree.Json

open OpTree.Number

inductive Value
  | null
  | bool (b : Bool)
  | int (n : Int)
  | float (x : Binary64)
  | string (s : String)
  | list (items : List Value)
  | object (members : List (String × Value))
  deriving Inhabited

/-- The two hexadecimal digits of a small number. -/
def hexPair (n : Nat) : List Char :=
  [Nat.digitChar (n / 16 % 16), Nat.digitChar (n % 16)]

/-- What stands for a character inside a JSON string. -/
def escapeChar (c : Char) : List Char :=
  match c with
  | '"' => ['\\', '"']
  | '\\' => ['\\', '\\']
  | '\x08' => ['\\', 'b']
  | '\x0c' => ['\\', 'f']
  | '\n' => ['\\', 'n']
  | '\r' => ['\\', 'r']
  | '\t' => ['\\', 't']
  | c => if c.toNat < 0x20 then ['\\', 'u', '0', '0'] ++ hexPair c.toNat else [c]

def stringText (s : String) : String :=
  String.ofList ('"' :: (s.toList.flatMap escapeChar ++ ['"']))

/-- A floating point number as JSON writes it; JSON has no other than the finite ones. -/
def floatText (x : Binary64) : String :=
  if x.isFinite then numberLayout.text x else "null"

namespace Value

/-- One form among several, with its payload. -/
def tagged (name : String) (payload : Value) : Value := .object [(name, payload)]

def ofOption : Option Value → Value
  | none => null
  | some v => v

/-- The text without white space. -/
def compact (v : Value) : String :=
  match v with
  | null => "null"
  | bool b => toString b
  | int n => toString n
  | float x => floatText x
  | string s => stringText s
  | list items => "[" ++ ",".intercalate (items.map compact) ++ "]"
  | object members =>
    "\x7b" ++ ",".intercalate (members.map fun m => stringText m.1 ++ ":" ++ compact m.2) ++ "\x7d"
termination_by v
decreasing_by
  · have := List.sizeOf_lt_of_mem ‹_›
    simp
    omega
  · have := List.sizeOf_lt_of_mem ‹m ∈ members›
    cases m
    simp at *
    omega

def lineBreak (level : Nat) : String :=
  String.ofList ('\n' :: List.replicate (2 * level) ' ')

/-- Items between brackets, each on a line of its own. -/
def bracketed (opening closing : String) (level : Nat) (items : List String) : String :=
  if items.isEmpty then opening ++ closing
  else
    opening ++ lineBreak (level + 1) ++ ("," ++ lineBreak (level + 1)).intercalate items ++
      lineBreak level ++ closing

/-- The text over several lines, for a value that stands at a level. -/
def prettyAt (level : Nat) (v : Value) : String :=
  match v with
  | list items => bracketed "[" "]" level (items.map (prettyAt (level + 1)))
  | object members =>
    bracketed "\x7b" "\x7d" level
      (members.map fun m => stringText m.1 ++ ": " ++ prettyAt (level + 1) m.2)
  | v => v.compact
termination_by v
decreasing_by
  · have := List.sizeOf_lt_of_mem ‹_›
    simp
    omega
  · have := List.sizeOf_lt_of_mem ‹m ∈ members›
    cases m
    simp at *
    omega

/-- The text over several lines. -/
def pretty (v : Value) : String := v.prettyAt 0

end Value

end OpTree.Json
