import OpTree.Text.Quoted

/-!
The log: events with a level, a message and named fields. An event also tells how many bytes of
diagnostics had been written when it was noted, because on a terminal both are seen together.
-/

namespace OpTree.World

inductive Level
  | error
  | warn
  | info
  | debug
  | trace
  deriving DecidableEq

def Level.name : Level → String
  | error => "ERROR"
  | warn => "WARN"
  | info => "INFO"
  | debug => "DEBUG"
  | trace => "TRACE"

/-- The levels in order, the most important first. -/
def Level.rank : Level → Nat
  | error => 0
  | warn => 1
  | info => 2
  | debug => 3
  | trace => 4

inductive FieldValue
  | text (s : String)
  /-- A text that is shown between quotes. -/
  | name (s : String)
  | count (n : Nat)
  deriving DecidableEq

def FieldValue.shown : FieldValue → String
  | .text s => s
  | .name s => Text.quote s
  | .count n => toString n

/-- The controls of the ASCII range by which a text could take over the terminal that shows it:
bell, backspace, form feed, escape and delete. -/
def steering : List Char := ['\x07', '\x08', '\x0c', '\x1b', '\x7f']

/-- What is shown for a character of a message. A control that could steer the terminal is
spelled out; tabs and line ends are left alone. -/
def tameChar (c : Char) : List Char :=
  let digits := Nat.toDigits 16 c.toNat
  if c ∈ steering then ['\\', 'x'] ++ List.replicate (2 - digits.length) '0' ++ digits
  else if 0x80 ≤ c.toNat && c.toNat ≤ 0x9f then ['\\', 'u', '{'] ++ digits ++ ['}']
  else [c]

/-- What is shown for a message. -/
def tame (s : String) : String := String.ofList (s.toList.flatMap tameChar)

structure Event where
  level : Level
  message : String
  fields : List (String × FieldValue)
  /-- How many bytes of diagnostics came before it. -/
  offset : Nat
  deriving DecidableEq

/-- The line for an event in a log, behind a lead that may tell the time. -/
def Event.line (lead : String) (e : Event) : String :=
  lead ++ e.level.name ++ " " ++ tame e.message ++
    String.join (e.fields.map fun f => " " ++ f.1 ++ "=" ++ f.2.shown) ++ "\n"

/-- The event is important enough to be shown down to a level. -/
def Event.isShown (level : Level) (e : Event) : Bool := decide (e.level.rank ≤ level.rank)

end OpTree.World
