import OpTree.Analysis.Id
import OpTree.Pass.Failure
import OpTree.Print.Dump

/-!
Passes: named steps that change a program, write to the surroundings, tell which analyses stay
valid, and may fail.
-/

namespace OpTree

open OpTree.IR

/-- What a pass works with besides the program. -/
structure PassState where
  world : World
  /-- The failures signalled so far. -/
  signals : List Failure := []
  preserved : Analysis.Preserved := {}

namespace PassState

/-- Signals a failure; the pass may go on. -/
def signal (s : PassState) (f : Failure) : PassState := { s with signals := s.signals ++ [f] }

/-- The failure that counts is the last one signalled. -/
def failure? (s : PassState) : Option Failure := s.signals.getLast?

def hasFailed (s : PassState) : Bool := s.failure?.isSome

/-- Declares that an analysis stays valid. -/
def preserve (s : PassState) (i : Analysis.Id) : PassState :=
  { s with preserved := s.preserved.add i }

/-- Declares that all analyses stay valid. -/
def preserveAll (s : PassState) : PassState := { s with preserved := s.preserved.addAll }

def write (s : PassState) (t : String) : PassState × Except World.StreamFault Unit :=
  let (w, r) := s.world.write t
  ({ s with world := w }, r)

def note (s : PassState) (level : World.Level) (message : String)
    (fields : List (String × World.FieldValue)) : PassState :=
  { s with world := s.world.note level message fields }

end PassState

/-- What makes a dump: where it goes, how it is printed and by whom. -/
structure DumpSettings where
  options : Print.DumpOptions := {}
  flags : Print.Flags := {}
  printer : Print.Printer := .textForm

/-- What a pass is, for those that look for one. -/
inductive PassKind
  | printIr (settings : DumpSettings)
  | stripDebugInfo
  | other

/-- What a pass leaves behind: the program, the state, and a failure if it gave up. -/
structure PassOutcome where
  unit : Operation
  state : PassState
  failure : Option Failure := none

structure Pass where
  name : String
  description : String := "No description provided"
  kind : PassKind := .other
  run : Operation → PassState → PassOutcome

end OpTree
