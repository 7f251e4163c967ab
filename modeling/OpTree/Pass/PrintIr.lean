import OpTree.Pass.Basic

/-!
The pass that dumps a program to the diagnostics or to a file. It changes nothing in the program
and keeps all analyses.
-/

namespace OpTree

open OpTree.IR
open OpTree.World

def DumpSettings.rendering (d : DumpSettings) (ansi : Bool) (op : Operation) : Print.Rendering :=
  d.printer.dump ansi d.options.label d.flags op

/-- Writes a rendering to a stream, piece by piece, and does as its printer asks. -/
def World.Sink.receive (s : Sink) (r : Print.Rendering) : Sink × Option Failure :=
  match s.writeAll (r.pieces.map Text.bytesOf) with
  | (s, .error f) => (s, some (.stream f))
  | (s, .ok ()) =>
    match r.ending with
    | .leave => (s, none)
    | .fail reason => (s, some (.reason reason))
    | .flush =>
      match s.flush with
      | .ok () => (s, none)
      | .error f => (s, some (.stream f))

/-- Writes a rendering to an open file. What does not fit into the buffer is passed on while the
printer is at work, the rest at the end; a printer that fails leaves what it has written. -/
def World.FileTree.receive (t : FileTree) (p : Place) (r : Print.Rendering) :
    FileTree × Option Failure :=
  let bs := Text.bytesOf r.text
  let t' := t.fill p bs
  match r.ending with
  | .fail reason =>
    if t.isFull p && FileTree.bufferSize < bs.length then (t', some (.file .noSpace))
    else (t', some (.reason reason))
  | _ => if t.isFull p && !bs.isEmpty then (t', some (.file .noSpace)) else (t', none)

/-- Writes a rendering to an open file, or to the stream that stands at its place. -/
def World.receive (w : World) (p : Place) (r : Print.Rendering) : World × Option Failure :=
  match w.files.node? p with
  | some (.channel c) =>
    let (s, failure) := (w.stream c).receive r
    (w.withStream s c, failure)
  | _ =>
    let (files, failure) := w.files.receive p r
    ({ w with files }, failure)

def dumpToDiagnostics (d : DumpSettings) (op : Operation) (s : PassState) : PassOutcome :=
  let s := s.note .debug "dumping IR to the diagnostic stream" [("label", .text d.options.label)]
  let (sink, failure) := s.world.diagnostics.receive (d.rendering s.world.ansi op)
  { unit := op, state := { s with world := { s.world with diagnostics := sink } }, failure }

def dumpToFile (d : DumpSettings) (path : String) (op : Operation) (s : PassState) :
    PassOutcome :=
  match s.world.files.create path with
  | .ok (place, files) =>
    let s := s.note .debug "dumping IR to file"
      [("label", .text d.options.label), ("path", .text path)]
    let (world, failure) := { s.world with files }.receive place (d.rendering s.world.ansi op)
    { unit := op, state := { s with world }, failure }
  | .error e =>
    let s := s.note .error ("could not open IR dump destination: " ++ e.message)
      [("path", .text path)]
    { unit := op, state := s.signal (.destinationUnavailable path e) }

def Pass.printIr (d : DumpSettings) : Pass where
  name := "print-ir"
  description := "Print IR on the debug stream"
  kind := .printIr d
  run op s :=
    match d.options.destination? with
    | none => dumpToDiagnostics d op s.preserveAll
    | some path => dumpToFile d path op s.preserveAll

end OpTree
