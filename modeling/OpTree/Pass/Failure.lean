import OpTree.World.Basic

/-!
Why passes fail, and how the failures of a run are reported.
-/

namespace OpTree

open OpTree.World

/-- The reason why a pass failed. -/
inductive Failure
  | reason (text : String)
  /-- The file that a dump should go to cannot be made. -/
  | destinationUnavailable (path : String) (cause : FileError)
  | stream (fault : StreamFault)
  | file (error : FileError)
  deriving DecidableEq

namespace Failure

def message : Failure → String
  | reason t => t
  | destinationUnavailable path cause =>
    "Could not open file: " ++ path ++ ": " ++ cause.message
  | stream f => f.message
  | file e => e.message

/-- The messages from the failure down to its first cause. -/
def chain : Failure → List String
  | f@(destinationUnavailable _ cause) => [f.message, cause.message]
  | f => [f.message]

/-- The file that could not be made. -/
def destination? : Failure → Option String
  | destinationUnavailable path _ => some path
  | _ => none

end Failure

structure PassFailure where
  pass : String
  source : Failure
  deriving DecidableEq

def PassFailure.message (f : PassFailure) : String :=
  "pass '" ++ f.pass ++ "' failed: " ++ f.source.message

/-- The outcome of a run in which passes failed. -/
inductive RunError
  | failed (f : PassFailure)
  | multiple (fs : List PassFailure)
  deriving DecidableEq

namespace RunError

def message : RunError → String
  | failed f => f.message
  | multiple fs => toString fs.length ++ " passes failed"

/-- The messages from the outcome down to its first cause. -/
def chain (e : RunError) : List String :=
  e.message :: match e with
    | failed f => f.source.chain
    | multiple _ => []

def ofFailures : List PassFailure → Except RunError Unit
  | [] => .ok ()
  | [f] => .error (.failed f)
  | fs => .error (.multiple fs)

end RunError

end OpTree
