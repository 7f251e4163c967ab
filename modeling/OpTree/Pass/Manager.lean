import OpTree.Analysis.Cache
import OpTree.Pass.PrintIr
import OpTree.Pass.StripDebugInfo

/-!
Running passes one after another over a program, with a cache of analysis results from which
each pass removes what it did not keep.
-/

namespace OpTree

open OpTree.IR
open OpTree.Analysis

/-- What happens when a pass fails: the run ends, or it goes on and reports at the end. -/
inductive FailurePolicy
  | halt
  | proceed
  deriving DecidableEq

/-- That a pass was executed, and whether it failed. -/
structure Statistic where
  name : String
  failed : Bool
  deriving DecidableEq

/-- A list of passes with everything that outlives a run. -/
structure Manager (ε : Type) where
  passes : List Pass := []
  cache : Cache ε := {}
  statistics : List Statistic := []
  collectStatistics : Bool := false
  policy : FailurePolicy := .halt

/-- What the execution of one pass leaves behind. -/
structure Execution where
  unit : Operation
  world : World
  preserved : Preserved
  failure : Option Failure

/-- Asks the diagnostics to pass on what they hold; a refusal is only noted. -/
def World.flushDiagnostics (w : World) (pass : String) : World :=
  match w.diagnostics.flush with
  | .ok () => w
  | .error f => w.note .debug ("failed to flush diagnostics: " ++ f.message) [("pass", .name pass)]

namespace Pass

def noteOutcome (name : String) (failure : Option Failure) (w : World) : World :=
  match failure with
  | some f => w.note .error ("pass failed: " ++ f.message) [("pass", .name name)]
  | none => w.note .debug "pass finished" [("pass", .name name)]

/-- Executes a pass. A failure that it gave up with counts before those that it signalled. -/
def execute (p : Pass) (op : Operation) (w : World) : Execution :=
  let w := w.note .debug "running pass" [("pass", .name p.name), ("op", .text op.name)]
  let o := p.run op { world := w }
  let failure := o.failure <|> o.state.failure?
  { unit := o.unit,
    world := noteOutcome p.name failure (o.state.world.flushDiagnostics p.name),
    preserved := o.state.preserved,
    failure }

end Pass

/-- How far a run has come. -/
structure Progress (ε : Type) where
  unit : Operation
  world : World
  cache : Cache ε
  /-- The passes executed in this run. -/
  executed : List Statistic := []
  failures : List PassFailure := []

namespace Progress

variable {ε : Type}

/-- Takes in what a pass of a name has left behind. -/
def advance (s : Progress ε) (name : String) (e : Execution) : Progress ε where
  unit := e.unit
  world := e.world
  cache := s.cache.retain e.preserved
  executed := s.executed ++ [⟨name, e.failure.isSome⟩]
  failures := s.failures ++ (e.failure.map fun f => ⟨name, f⟩).toList

/-- Executes passes in order, up to the first failure if that is to end the run. -/
def run (policy : FailurePolicy) : List Pass → Progress ε → Progress ε
  | [], s => s
  | p :: ps, s =>
    let e := p.execute s.unit s.world
    let s := s.advance p.name e
    if policy = .halt ∧ e.failure.isSome then s else run policy ps s

end Progress

structure RunOutcome (ε : Type) where
  manager : Manager ε
  unit : Operation
  world : World
  result : Except RunError Unit

namespace Manager

variable {ε ρ : Type}

def add (m : Manager ε) (p : Pass) : Manager ε := { m with passes := m.passes ++ [p] }

def addAll (m : Manager ε) (ps : List Pass) : Manager ε := { m with passes := m.passes ++ ps }

def passNames (m : Manager ε) : List String := m.passes.map (·.name)

/-- Runs all passes over a program. -/
def run (m : Manager ε) (op : Operation) (w : World) : RunOutcome ε :=
  let s := Progress.run m.policy m.passes { unit := op, world := w, cache := m.cache }
  { manager :=
      { m with
        cache := s.cache
        statistics := m.statistics ++ if m.collectStatistics then s.executed else [] },
    unit := s.unit,
    world := s.world,
    result := RunError.ofFailures s.failures }

/-- The result of an analysis, from the cache if it is there. -/
def getAnalysis (m : Manager ε) (a : Analysis ε ρ) (op : Operation) :
    Manager ε × Except Analysis.Error ρ :=
  let (cache, r) := m.cache.analyze a op
  ({ m with cache }, r)

/-- Stores a result under the name of an analysis, whatever it is. -/
def cacheAnalysis (m : Manager ε) (i : Id) (op : Operation) (v : Stored ε) : Manager ε :=
  { m with cache := m.cache.insert (.of i op) v }

/-- There is a result for an analysis of a program. -/
def isAnalysisValid (m : Manager ε) (op : Operation) (i : Id) : Bool :=
  m.cache.contains (.of i op)

/-- The settings of the first pass that dumps. -/
def firstDump? (m : Manager ε) : Option DumpSettings :=
  m.passes.findSome? fun p =>
    match p.kind with
    | .printIr d => some d
    | _ => none

end Manager

end OpTree
