import OpTree.Command.Invocation
import OpTree.Command.Report
import OpTree.IR.Load
import OpTree.Pipeline.Registry

/-!
Executing commands. A command reads its program from a file, runs passes over it, and ends with
an exit code, texts on both outputs, and perhaps changed files.
-/

namespace OpTree.Command

open OpTree.IR
open OpTree.Pipeline

/-- What a command leaves behind. Tables go to the output of the world, dumps and errors to its
diagnostics. -/
structure Outcome where
  exit : Nat
  world : World

/-- Ends with an error, given by its message and those of its causes. -/
def failing (messages : List String) (w : World) : Outcome where
  exit := 1
  world := (w.write (errorText messages)).1

/-- Ends as a run of passes has ended. -/
def ending (w : World) : Except RunError Unit → Outcome
  | .ok () => { exit := 0, world := w }
  | .error e => failing e.chain w

/-- The program in a file, or the messages of why there is none. -/
def loadUnit (w : World) (input : String) : Except (List String) (Operation × World) :=
  match w.files.readText input with
  | .error e => .error ["failed to read " ++ input, e.message]
  | .ok text =>
    match Operation.load text with
    | .error f =>
      .error ["failed to load IR from " ++ input, Operation.loadMessage f, f.message]
    | .ok op =>
      .ok (op, w.note .info "loaded IR" [("input", .text input), ("operations", .count op.count)])

def runPipeline (time : Nat → String) (pipeline : String) (continueOnFailure stats : Bool)
    (op : Operation) (w : World) : Outcome :=
  let manager : Manager Empty :=
    { policy := if continueOnFailure then .proceed else .halt, collectStatistics := stats }
  match Registry.builtin.populate manager pipeline with
  | .error e => failing [e.message] w
  | .ok manager =>
    let r := manager.run op w
    let table := if stats then statisticsText w.ansi time r.manager.statistics else ""
    ending (r.world.print table) r.result

def printUnit (options : Print.DumpOptions) (flags : Print.Flags) (op : Operation) (w : World) :
    Outcome :=
  let manager : Manager Empty := { passes := [.printIr { options, flags }] }
  let r := manager.run op w
  ending r.world r.result

def showPasses (w : World) : Outcome where
  exit := 0
  world := w.print <|
    String.join (Registry.builtin.passes.map fun p => passLine w.ansi p.name p.description)

/-- Loads a program and goes on with it. -/
def withUnit (input : String) (w : World) (next : Operation → World → Outcome) : Outcome :=
  match loadUnit w input with
  | .error messages => failing messages w
  | .ok (op, w) => next op w

/-- Executes a command. The time that the n-th pass takes is shown as `time n`. -/
def Action.execute (time : Nat → String) (w : World) : Action → Outcome
  | .run input pipeline continueOnFailure stats =>
    withUnit input w (runPipeline time pipeline continueOnFailure stats)
  | .print input options flags => withUnit input w (printUnit options flags)
  | .listPasses => showPasses w

/-- The files that a command may read or write. -/
def Action.paths : Action → List String
  | .run input pipeline .. =>
    let passes := (Registry.builtin.parsePipeline pipeline).toOption.getD []
    input :: passes.filterMap fun p =>
      match p.kind with
      | .printIr d => d.options.destination?
      | _ => none
  | .print input options _ => input :: options.destination?.toList
  | .listPasses => []

def usage : String := "Usage: ophir [OPTIONS] <COMMAND>\n"

def helpText : String :=
  "ophir - run pass pipelines over operation IR and dump it between stages\n\n" ++ usage ++
    "\nCommands:\n" ++
    "  run          Run a textual pass pipeline over an IR file\n" ++
    "  print        Dump an IR file once through the print-ir pass\n" ++
    "  list-passes  List the passes a pipeline may use\n" ++
    "  help         Print this message or the help of the given subcommand(s)\n"

def stopped (w : World) : Stop → Outcome
  | .help => { exit := 0, world := w.print helpText }
  | .version => { exit := 0, world := w.print "ophir 0.1.0\n" }
  | .usage => { exit := 2, world := (w.write usage).1 }

/-- Whether colours are shown, given the settings that ask for them or forbid them; without a
setting they are shown on a terminal. -/
def showsColors (force forbid wish : Option String) (terminal : Bool) : Bool :=
  if force.any (· != "0") then true
  else if forbid.isSome then false
  else wish.all (· != "0") && terminal

/-- Does what a list of arguments asks for. -/
def execute (time : Nat → String) (args : List String) (w : World) : Outcome :=
  match Invocation.ofArguments args with
  | .ok i => i.action.execute time w
  | .error s => stopped w s

/-- The level down to which a list of arguments wants the log to be shown. -/
def shownLevel (args : List String) : World.Level :=
  match Invocation.ofArguments args with
  | .ok i => i.level
  | .error _ => .warn

end OpTree.Command
