import OpTree.Text.Utf8
import OpTree.World.Sink

/-!
Files and directories, with the rules by which a path leads to one: a path is walked component
by component from the root or from the working directory, and everything but its last component
has to be a directory.
-/

namespace OpTree.World

/-- Why a file cannot be read or written. -/
inductive FileError
  | notFound
  | notDirectory
  | isDirectory
  | noSpace
  | nameTooLong
  | zeroInName
  | notText
  deriving DecidableEq

def FileError.message : FileError → String
  | notFound => "No such file or directory (os error 2)"
  | notDirectory => "Not a directory (os error 20)"
  | isDirectory => "Is a directory (os error 21)"
  | noSpace => "No space left on device (os error 28)"
  | nameTooLong => "File name too long (os error 36)"
  | zeroInName => "file name contained an unexpected NUL byte"
  | notText => "stream did not contain valid UTF-8"

inductive Node
  | file (content : List UInt8)
  | directory
  /-- Takes everything and keeps nothing. -/
  | sink
  /-- Takes nothing. -/
  | full
  /-- Passes everything on to a stream of the program and empties nothing. -/
  | channel (c : Channel)
  deriving DecidableEq

/-- A place in the tree: the names from the root down. -/
abbrev Place := List String

/-- A tree of files. The root is always there. -/
structure FileTree where
  /-- The working directory. -/
  home : Place := []
  nodes : List (Place × Node) := []

namespace FileTree

def devices : List (Place × Node) :=
  [(["dev"], .directory), (["dev", "null"], .sink), (["dev", "full"], .full)]

/-- The places at which a program finds its own streams. -/
def streams : List (Place × Node) :=
  [ (["dev", "stdout"], .channel .output), (["dev", "stderr"], .channel .diagnostics),
    (["dev", "fd"], .directory), (["dev", "fd", "1"], .channel .output),
    (["dev", "fd", "2"], .channel .diagnostics), (["proc"], .directory),
    (["proc", "self"], .directory), (["proc", "self", "fd"], .directory),
    (["proc", "self", "fd", "1"], .channel .output),
    (["proc", "self", "fd", "2"], .channel .diagnostics) ]

def node? (t : FileTree) (p : Place) : Option Node :=
  if p = [] then some .directory else (t.nodes.find? (·.1 == p)).map Prod.snd

def put (t : FileTree) (p : Place) (n : Node) : FileTree :=
  if t.nodes.any (·.1 == p) then
    { t with nodes := t.nodes.map fun e => if e.1 == p then (p, n) else e }
  else { t with nodes := t.nodes ++ [(p, n)] }

/-- The tree with directories at a place and at all places above it. -/
def withDirectories (t : FileTree) (p : Place) : FileTree :=
  (List.range (p.length + 1)).foldl
    (fun t n => if (t.node? (p.take n)).isSome then t else t.put (p.take n) .directory) t

def withFile (t : FileTree) (p : Place) (content : List UInt8) : FileTree :=
  (t.withDirectories p.dropLast).put p (.file content)

/-- The regular files below the working directory, by their names from there. -/
def filesBelowHome (t : FileTree) : List (Place × List UInt8) :=
  t.nodes.filterMap fun e =>
    match e.2 with
    | .file content =>
      if t.home.isPrefixOf e.1 then some (e.1.drop t.home.length, content) else none
    | _ => none

/-- A path, taken apart. -/
structure Path where
  absolute : Bool
  components : List String
  trailingSlash : Bool

/-- The pieces of a text between slashes. -/
def splitSlashes : List Char → List (List Char)
  | [] => [[]]
  | '/' :: r => [] :: splitSlashes r
  | c :: r =>
    match splitSlashes r with
    | [] => [[c]]
    | p :: ps => (c :: p) :: ps

def Path.ofString (s : String) : Path where
  absolute := s.toList.head? == some '/'
  components := ((splitSlashes s.toList).filter (· ≠ [])).map String.ofList
  trailingSlash := s.toList.getLast? == some '/'

/-- The longest name in bytes. -/
def longestName : Nat := 255

/-- The longest path in bytes. -/
def longestPath : Nat := 4095

/-- Takes one step from a directory: to the directory itself, to the one above it, or to
something in it, which may be missing. -/
def step (d : Place) (c : String) : Except FileError Place :=
  if c = "." then .ok d
  else if c = ".." then .ok d.dropLast
  else if longestName < c.utf8ByteSize then .error .nameTooLong
  else .ok (d ++ [c])

def walk (t : FileTree) (d : Place) : List String → Except FileError Place
  | [] => .ok d
  | c :: cs => do
    let d ← step d c
    match t.node? d with
    | none => .error .notFound
    | some .directory => walk t d cs
    | some _ => .error .notDirectory

/-- Where a path is walked from. -/
def origin (t : FileTree) (p : Path) : Place := if p.absolute then [] else t.home

/-- A path that is short enough and has no zero in it. -/
def parse (s : String) : Except FileError Path :=
  if s.toList.contains '\x00' then .error .zeroInName
  else if longestPath < s.utf8ByteSize then .error .nameTooLong
  else if s.isEmpty then .error .notFound
  else .ok (.ofString s)

/-- Where a file of this path would be made or found for writing. -/
def target (t : FileTree) (s : String) : Except FileError Place := do
  let p ← parse s
  let parent ← t.walk (t.origin p) p.components.dropLast
  match p.components.getLast? with
  | none => .error .isDirectory
  | some c =>
    if p.trailingSlash || c = "." || c = ".." then .error .isDirectory
    else
      let q ← step parent c
      if t.node? q = some .directory then .error .isDirectory else .ok q

/-- Opens a file for writing: it is made if it is missing, and emptied. -/
def create (t : FileTree) (s : String) : Except FileError (Place × FileTree) := do
  let p ← t.target s
  match t.node? p with
  | none | some (.file _) => .ok (p, t.put p (.file []))
  | some _ => .ok (p, t)

/-- How many bytes wait before they are passed on to a file. -/
def bufferSize : Nat := 8192

/-- Writes the content of an open file. -/
def fill (t : FileTree) (p : Place) (bs : List UInt8) : FileTree :=
  match t.node? p with
  | some (.file _) => t.put p (.file bs)
  | _ => t

/-- The place takes no bytes. -/
def isFull (t : FileTree) (p : Place) : Bool := t.node? p == some .full

def readBytes (t : FileTree) (s : String) : Except FileError (List UInt8) := do
  let p ← parse s
  let parent ← t.walk (t.origin p) p.components.dropLast
  let q ← match p.components.getLast? with
    | none => .ok parent
    | some c => step parent c
  match t.node? q with
  | none => .error .notFound
  | some .directory => .error .isDirectory
  | some n =>
    if p.trailingSlash then .error .notDirectory
    else
      match n with
      | .file bs => .ok bs
      | _ => .ok []

def readText (t : FileTree) (s : String) : Except FileError String := do
  let bs ← t.readBytes s
  match Text.ofBytes? bs with
  | some text => .ok text
  | none => .error .notText

end FileTree

end OpTree.World
