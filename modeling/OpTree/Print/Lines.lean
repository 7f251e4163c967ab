import OpTree.Print.AttributeText
import OpTree.Print.Paint
import OpTree.Print.Users

/-!
The text form of operations as a list of lines. An operation without regions is one line; one
with regions has an opening line, the lines of its regions with separators between them, and a
closing line. What is nested stands one level deeper, block labels do not.
-/

namespace OpTree.Print

open OpTree.IR

/-- What a line is in the operation it belongs to. -/
inductive Line.Role
  | whole
  | opening
  | separator
  | label
  | closing
  deriving DecidableEq

structure Line where
  level : Nat
  role : Line.Role
  text : String

/-- The line with its indentation and its end. -/
def Line.render (unit : String) (l : Line) : String :=
  String.join (List.replicate l.level unit) ++ l.text ++ "\n"

/-- What one rendering needs to know about the program around an operation. -/
structure Session where
  flags : Flags
  /-- Colours are asked for and can be shown. -/
  colors : Bool
  names : Names
  /-- The uses of values, if they are to be shown. -/
  uses : Option Uses

namespace Session

def ofOperation (ansi : Bool) (f : Flags) (root : Operation) : Session where
  flags := f
  colors := f.useColors && ansi
  names := .ofOperation root
  uses := if f.valueUsers then some (.ofOperation root (.ofOperation root)) else none

def nameList (s : Session) (vs : List Value) : String :=
  Ty.commaList (vs.map s.names.name)

def head (s : Session) (op : Operation) : String :=
  (if op.results.isEmpty then "" else s.nameList op.results ++ " = ") ++
    paint s.colors .cyan (Text.quote op.name) ++ "(" ++ s.nameList op.operands ++ ")"

/-- The comment that names the users of an operation, if there are any. -/
def usersComment (s : Session) (op : Operation) : String :=
  match s.uses with
  | none => ""
  | some u =>
    let users := u.users op
    if users.isEmpty then ""
    else paint s.colors .brightBlack (" // users: " ++ Ty.commaList users)

def locationText (s : Session) (op : Operation) : String :=
  if s.flags.debugInfo then " loc(" ++ op.location.text ++ ")" else ""

/-- Everything behind the operands and regions of an operation. -/
def tail (s : Session) (op : Operation) : String :=
  let attributes := attributesText s.flags op
  (if attributes.isEmpty then "" else " " ++ attributes) ++ " : " ++ (signature op).text ++
    s.locationText op ++ s.usersComment op

def argumentText (s : Session) (v : Value) : String :=
  s.names.name v ++ ": " ++ v.ty.text

def labelText (s : Session) (index : Nat) (b : Block) : String :=
  "^bb" ++ toString index ++
    (if b.arguments.isEmpty then ""
     else "(" ++ Ty.commaList (b.arguments.map s.argumentText) ++ ")") ++ ":"

/-- The first block of a region has a label only for its arguments. -/
def labelLines (s : Session) (level index : Nat) (b : Block) : List Line :=
  if index = 0 ∧ b.arguments.isEmpty then [] else [⟨level, .label, s.labelText index b⟩]

/-- The lines of the blocks of a region, given those of the operations in each. -/
def blockLines (s : Session) (level : Nat) : Nat → List (Block × List Line) → List Line
  | _, [] => []
  | i, (b, nested) :: r => s.labelLines level i b ++ nested ++ blockLines s level (i + 1) r

def lines (s : Session) (level : Nat) (op : Operation) : List Line :=
  if op.regions.isEmpty then [⟨level, .whole, s.head op ++ s.tail op⟩]
  else if s.flags.skipRegions then
    [⟨level, .whole,
      s.head op ++ " (" ++ Ty.commaList (op.regions.map fun _ => "\x7b...\x7d") ++ ")" ++
        s.tail op⟩]
  else
    ⟨level, .opening, s.head op ++ " (\x7b"⟩ ::
      ([⟨level, .separator, "\x7d, \x7b"⟩].intercalate
        (op.regions.map fun r => s.blockLines level 0
          (r.blocks.map fun b => (b, b.operations.flatMap (lines s (level + 1))))) ++
        [⟨level, .closing, "\x7d)" ++ s.tail op⟩])
termination_by op
decreasing_by exact Operation.sizeOf_lt ‹_› ‹_› ‹_›

end Session

def lines (ansi : Bool) (f : Flags) (root : Operation) : List Line :=
  (Session.ofOperation ansi f root).lines 0 root

def text (ansi : Bool) (f : Flags) (root : Operation) : String :=
  String.join ((lines ansi f root).map (Line.render f.indent.unit))

end OpTree.Print
