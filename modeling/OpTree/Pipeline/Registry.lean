import OpTree.Pass.Manager
import OpTree.Pipeline.Entry
import OpTree.Pipeline.Options

/-!
The passes that a pipeline may name, and how a pipeline becomes passes.
-/

namespace OpTree.Pipeline

abbrev PassFactory := PassOptions → Except Error Pass

structure Registration where
  name : String
  description : String
  factory : PassFactory

/-- The passes in the order in which they were registered, each name once. -/
structure Registry where
  passes : List Registration := []

def buildPrintIr (o : PassOptions) : Except Error Pass := do
  let (label, o) := o.take "label"
  let (fileName, o) := o.take "file-name"
  let (elideAbove, o) := o.takeSize "elide-elementsattrs-if-larger"
  let elideAbove ← elideAbove
  let (debugInfo, o) := o.takeBool "print-debuginfo"
  let debugInfo ← debugInfo
  let (valueUsers, o) := o.takeBool "print-value-users"
  let valueUsers ← valueUsers
  let (skipRegions, o) := o.takeBool "skip-regions"
  let skipRegions ← skipRegions
  o.finish
  return .printIr
    { options := { fileName, label := label.getD "" },
      flags :=
        { elideAbove,
          debugInfo := debugInfo.getD false,
          valueUsers := valueUsers.getD false,
          skipRegions := skipRegions.getD false } }

def buildStripDebugInfo (o : PassOptions) : Except Error Pass := do
  o.finish
  return .stripDebugInfo

namespace Registry

/-- Registers a pass at the end; an earlier registration of the name is dropped. -/
def register (r : Registry) (p : Registration) : Registry :=
  ⟨r.passes.filter (·.name != p.name) ++ [p]⟩

/-- The registry of the passes of this library. -/
def builtin : Registry :=
  (({} : Registry).register ⟨"print-ir", Pass.printIr {} |>.description, buildPrintIr⟩).register
    ⟨"strip-debuginfo", Pass.stripDebugInfo.description, buildStripDebugInfo⟩

def find? (r : Registry) (name : String) : Option Registration :=
  r.passes.find? (·.name == name)

def create (r : Registry) (e : Entry) : Except Error Pass :=
  match r.find? e.name with
  | none => .error (.unknownPass e.name)
  | some p => p.factory ⟨e.name, e.options⟩

def parsePipeline (r : Registry) (text : String) : Except Error (List Pass) := do
  let entries ← Entry.parse text
  entries.mapM r.create

/-- Adds the passes of a pipeline to a manager. -/
def populate {ε : Type} (r : Registry) (m : Manager ε) (text : String) :
    Except Error (Manager ε) :=
  m.addAll <$> r.parsePipeline text

end Registry

end OpTree.Pipeline
