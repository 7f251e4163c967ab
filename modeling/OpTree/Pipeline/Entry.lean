import OpTree.Pipeline.Error
import OpTree.Text.Blank

/-!
The text of a pipeline: entries separated by commas, each the name of a pass and, in braces,
options separated by blanks. An option has a value behind an equals sign, in quotes if need be,
or stands alone and is true.
-/

namespace OpTree.Pipeline

structure Entry where
  name : String
  options : List (String × String) := []
  deriving DecidableEq

/-- A value without the quotes around it. -/
def unquote (v : List Char) : List Char :=
  match v with
  | '"' :: r => if r.getLast? = some '"' then r.dropLast else v
  | _ => v

/-- The two parts of a text around the first occurrence of a character. -/
def splitOnce (c : Char) (s : List Char) : Option (List Char × List Char) :=
  match s.dropWhile (· ≠ c) with
  | [] => none
  | _ :: r => some (s.takeWhile (· ≠ c), r)

def parseOption (t : List Char) : Except Malformed (String × String) :=
  let (key, value) := match splitOnce '=' t with
    | some (k, v) => (k, unquote v)
    | none => (t, "true".toList)
  if key = [] then .error (.namelessOption (.ofList t))
  else .ok (.ofList key, .ofList value)

/-- The pieces of a text between separators, or its imbalance. -/
def splitBalanced (isSeparator : Char → Bool) (s : List Char) :
    Except Malformed (List (List Char)) :=
  (splitTop isSeparator s).mapError fun e => .imbalance e (.ofList s)

/-- Reads the options between the braces. -/
def parseOptions (s : List Char) : Except Malformed (List (String × String)) := do
  let pieces ← splitBalanced Text.isBlank s
  (pieces.filter (· ≠ [])).mapM parseOption

/-- A name is not empty and holds no blanks. -/
def checkName (name : List Char) : Except Malformed String :=
  if name = [] ∨ name.any Text.isBlank then .error (.invalidName (.ofList name))
  else .ok (.ofList name)

/-- Reads one entry, without blanks around it. -/
def parseEntry (s : List Char) : Except Malformed Entry :=
  match splitOnce '{' s with
  | none => do
    let name ← checkName s
    return { name }
  | some (name, rest) => do
    if rest.getLast? ≠ some '}' then throw (.openEntry (.ofList s))
    let options ← parseOptions rest.dropLast
    let name ← checkName (Text.trim name)
    return { name, options }

/-- The pieces of a text between commas, none of which may be blank. -/
def splitEntries (s : List Char) : Except Malformed (List (List Char)) := do
  let pieces ← splitBalanced (· == ',') s
  if pieces.any Text.isBlankText then throw (.emptyEntry (.ofList s))
  return pieces

/-- Reads a pipeline. A blank text has no entries. -/
def parseEntries (s : List Char) : Except Malformed (List Entry) := do
  if Text.isBlankText s then return []
  let pieces ← splitEntries s
  pieces.mapM fun p => parseEntry (Text.trim p)

def Entry.parse (text : String) : Except Error (List Entry) :=
  (parseEntries text.toList).mapError .malformed

end OpTree.Pipeline
