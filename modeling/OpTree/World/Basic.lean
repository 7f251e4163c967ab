import OpTree.World.FileTree
import OpTree.World.Log
import OpTree.World.Sink
import OpTree.Text.Utf8

/-!
What passes can see and change besides the program: a terminal, streams for output and for
diagnostics, files and a log.
-/

namespace OpTree

/-- The surroundings of a run. -/
structure World where
  /-- The terminal shows colours. -/
  ansi : Bool := true
  output : World.Sink := {}
  diagnostics : World.Sink := {}
  files : World.FileTree := {}
  log : List World.Event := []

namespace World

def note (w : World) (level : Level) (message : String) (fields : List (String × FieldValue)) :
    World :=
  { w with log := w.log ++ [⟨level, message, fields, w.diagnostics.written.length⟩] }

def stream (w : World) : Channel → Sink
  | .output => w.output
  | .diagnostics => w.diagnostics

def withStream (w : World) (s : Sink) : Channel → World
  | .output => { w with output := s }
  | .diagnostics => { w with diagnostics := s }

/-- Writes text to the output. -/
def print (w : World) (s : String) : World :=
  { w with output := (w.output.write (Text.bytesOf s)).1 }

def write (w : World) (s : String) : World × Except StreamFault Unit :=
  let (d, r) := w.diagnostics.write (Text.bytesOf s)
  ({ w with diagnostics := d }, r)

/-- Bytes with others put in between at given positions, which ascend; `n` bytes came before. -/
def weave (n : Nat) : List (Nat × List UInt8) → List UInt8 → List UInt8
  | [], bs => bs
  | (p, t) :: ps, bs => bs.take (p - n) ++ t ++ weave (max n p) ps (bs.drop (p - n))

/-- The diagnostics with the lines for the events that are shown, each where it was noted. -/
def transcript (w : World) (lead : String) (level : Level) : List UInt8 :=
  weave 0
    ((w.log.filter (·.isShown level)).map fun e => (e.offset, Text.bytesOf (e.line lead)))
    w.diagnostics.written

end World

end OpTree
