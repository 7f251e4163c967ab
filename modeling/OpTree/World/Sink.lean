/-!
Output streams: the bytes written so far, and the faults that a stream can have. A program has
two of them, one for what it tells and one for diagnostics.
-/

namespace OpTree.World

inductive Channel
  | output
  | diagnostics
  deriving DecidableEq

inductive StreamFault
  | full
  | flushFailed
  deriving DecidableEq

def StreamFault.message : StreamFault → String
  | full => "stream full"
  | flushFailed => "flush failed"

/-- An output stream. -/
structure Sink where
  written : List UInt8 := []
  /-- How many bytes it takes in all; without a number there is no limit. -/
  capacity : Option Nat := none
  flushFails : Bool := false

namespace Sink

/-- The part of these bytes for which there is room. -/
def accepted (s : Sink) (bs : List UInt8) : List UInt8 :=
  match s.capacity with
  | none => bs
  | some n => bs.take (n - s.written.length)

/-- Writes bytes as far as there is room. -/
def write (s : Sink) (bs : List UInt8) : Sink × Except StreamFault Unit :=
  ({ s with written := s.written ++ s.accepted bs },
    if (s.accepted bs).length = bs.length then .ok () else .error .full)

/-- Writes pieces one after the other, up to and including the first for which there is not
enough room. -/
def writeAll (s : Sink) : List (List UInt8) → Sink × Except StreamFault Unit
  | [] => (s, .ok ())
  | bs :: r =>
    match s.write bs with
    | (s, .ok ()) => s.writeAll r
    | (s, .error f) => (s, .error f)

/-- Asks that everything written be passed on. -/
def flush (s : Sink) : Except StreamFault Unit :=
  if s.flushFails then .error .flushFailed else .ok ()

end Sink

end OpTree.World
