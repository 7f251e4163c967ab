import OpTree.Command.Grammar
import OpTree.Print.Dump
import OpTree.Text.Size
import OpTree.World.Log

/-!
What a command line asks for.
-/

namespace OpTree.Command

open OpTree.World (Level)

inductive Action
  /-- Run a pipeline over the program in a file. -/
  | run (input pipeline : String) (continueOnFailure stats : Bool)
  /-- Dump the program in a file. -/
  | print (input : String) (options : Print.DumpOptions) (flags : Print.Flags)
  | listPasses

/-- A command with the level down to which the log is shown. -/
structure Invocation where
  action : Action
  level : Level

/-- The levels by the names that a command line has for them. -/
def levelOfName? : String → Option Level
  | "error" => some .error
  | "warn" => some .warn
  | "info" => some .info
  | "debug" => some .debug
  | "trace" => some .trace
  | _ => none

/-- The level for a number of requests for more. -/
def levelOfCount : Nat → Level
  | 0 => .warn
  | 1 => .info
  | 2 => .debug
  | _ => .trace

def commonSwitches : List Switch :=
  [ { name := "verbose", short := some 'v', effect := .counter },
    { name := "log-level", effect := .value fun v => (levelOfName? v).isSome },
    { name := "help", short := some 'h', effect := .help } ]

/-- What stands in front of a subcommand. -/
def topGrammar : Grammar where
  switches := { name := "version", short := some 'V', effect := .version } :: commonSwitches
  subcommands := ["run", "print", "list-passes", "help"]

def anyText (_ : String) : Bool := true

/-- A path is any text but the empty one. -/
def isPath (v : String) : Bool := !v.isEmpty

/-- The arguments of the command to run a pipeline. -/
def runGrammar : Grammar where
  switches :=
    [ { name := "pass-pipeline", short := some 'p', effect := .value anyText },
      { name := "continue-on-failure", effect := .toggle },
      { name := "stats", effect := .toggle } ] ++ commonSwitches
  positionals := 1

def printGrammar : Grammar where
  switches :=
    [ { name := "label", short := some 'l', effect := .value anyText },
      { name := "output", short := some 'o', effect := .value isPath },
      { name := "elide-large-elements",
        effect := .value fun v => (Text.parseSize? v).isSome },
      { name := "debug-info", effect := .toggle },
      { name := "value-users", effect := .toggle },
      { name := "skip-regions", effect := .toggle },
      { name := "color", effect := .toggle } ] ++ commonSwitches
  positionals := 1

/-- The arguments of the command to list passes. -/
def listGrammar : Grammar where
  switches := commonSwitches

/-- The command to run a pipeline needs a file and a pipeline. -/
def Action.ofRun (f : Found) : Except Stop Action :=
  match f.positionals, f.value? "pass-pipeline" with
  | [input], some pipeline =>
    .ok (.run input pipeline (f.has "continue-on-failure") (f.has "stats"))
  | _, _ => .error .usage

/-- The command to dump needs a file. -/
def Action.ofPrint (f : Found) : Except Stop Action :=
  match f.positionals with
  | [input] =>
    .ok (.print input
      { fileName := f.value? "output", label := (f.value? "label").getD "" }
      { elideAbove := (f.value? "elide-large-elements").bind Text.parseSize?,
        debugInfo := f.has "debug-info",
        valueUsers := f.has "value-users",
        skipRegions := f.has "skip-regions",
        useColors := f.has "color" })
  | _ => .error .usage

def helpStop (args : List String) : Stop :=
  match args with
  | [] => .help
  | [a] => if topGrammar.subcommands.contains a then .help else .usage
  | _ => .usage

/-- What is asked for by a subcommand with its arguments. -/
def readSubcommand (name : String) (args : List String) : Except Stop (Found × Action) := do
  match name with
  | "run" =>
    let f ← runGrammar.read args
    return (f, ← Action.ofRun f)
  | "print" =>
    let f ← printGrammar.read args
    return (f, ← Action.ofPrint f)
  | "list-passes" =>
    let f ← listGrammar.read args
    return (f, .listPasses)
  | _ => throw (helpStop args)

/-- The level asked for in front of a subcommand or behind it; what stands behind counts. -/
def levelOf (outer inner : Found) : Level :=
  match (inner.value? "log-level" <|> outer.value? "log-level").bind levelOfName? with
  | some l => l
  | none =>
    levelOfCount (if inner.has "verbose" then inner.count "verbose" else outer.count "verbose")

def Invocation.ofArguments (args : List String) : Except Stop Invocation := do
  let outer ← topGrammar.read args
  match outer.subcommand with
  | none => throw .usage
  | some (name, rest) =>
    let (inner, action) ← readSubcommand name rest
    return ⟨action, levelOf outer inner⟩

end OpTree.Command
