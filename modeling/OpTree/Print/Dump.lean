import OpTree.Print.Lines

/-!
Dumps: a header line with an optional label, and below it what a printer makes of a program.
-/

namespace OpTree.Print

open OpTree.IR
open OpTree.Json
open OpTree.Json.Source

/-- Where a dump goes and what its header says. -/
structure DumpOptions where
  /-- The file to write; without one, or with an empty name, the dump goes to the diagnostics. -/
  fileName : Option String := none
  label : String := ""
  deriving DecidableEq

namespace DumpOptions

def destination? (o : DumpOptions) : Option String :=
  o.fileName.filter fun n => !n.isEmpty

def toJson (o : DumpOptions) : Json.Value :=
  .object [("file_name", .ofOption (o.fileName.map .string)), ("label", .string o.label)]

/-- Reads options; both fields may be missing. -/
def read (budget : Nat) : Source → Except Fault DumpOptions :=
  readRecord budget "struct PrintIrOptions"
    [ optionalField "file_name" (fun _ _ => readOption (readText "path string"))
        fun v r => { r with fileName := v },
      optionalField "label" (fun _ _ => readString) fun v r => { r with label := v } ]
    {}

end DumpOptions

def dumpHeader (label : String) : String :=
  "// -----// IR Dump" ++ (if label.isEmpty then "" else " " ++ label) ++ " //----- //"

/-- What a printer does when its text is written. -/
inductive Ending
  /-- It asks that everything be passed on at once. -/
  | flush
  | leave
  | fail (reason : String)

/-- What a printer makes of a program: pieces of text, each written when the one before it was. -/
structure Rendering where
  pieces : List String
  ending : Ending

def Rendering.text (r : Rendering) : String := String.join r.pieces

/-- A way to print programs. -/
structure Printer where
  render : (ansi : Bool) → Flags → Operation → Rendering

namespace Printer

def textForm : Printer :=
  ⟨fun ansi f op => ⟨(lines ansi f op).map (Line.render f.indent.unit), .flush⟩⟩

/-- A labelled dump: the header line and the rendering. -/
def dump (p : Printer) (ansi : Bool) (label : String) (f : Flags) (op : Operation) : Rendering :=
  let r := p.render ansi f op
  { r with pieces := (dumpHeader label ++ "\n") :: r.pieces }

end Printer

end OpTree.Print
