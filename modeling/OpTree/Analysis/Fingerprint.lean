import OpTree.Analysis.SipHash
import OpTree.IR.Operation
import OpTree.Text.Utf8

/-!
The fingerprint of a program: a hash of everything in it but the locations. What is hashed is a
list of bytes in which each part can be told from the next, because texts end with a byte that
no text contains, and lists begin with their length.
-/

namespace OpTree.Analysis.Fingerprint

open OpTree.IR

def wordBytes (w : UInt64) : List UInt8 :=
  [w.toUInt8, (w >>> 8).toUInt8, (w >>> 16).toUInt8, (w >>> 24).toUInt8,
    (w >>> 32).toUInt8, (w >>> 40).toUInt8, (w >>> 48).toUInt8, (w >>> 56).toUInt8]

/-- The bytes of a half word, the lowest first. -/
def halfWordBytes (w : UInt32) : List UInt8 :=
  [w.toUInt8, (w >>> 8).toUInt8, (w >>> 16).toUInt8, (w >>> 24).toUInt8]

/-- The bytes of a length, or of the position of a form among several. -/
def numberBytes (n : Nat) : List UInt8 := wordBytes (UInt64.ofNat n)

def stringBytes (s : String) : List UInt8 := Text.bytesOf s ++ [0xff]

def integerBytes (n : Int64) : List UInt8 := wordBytes n.toUInt64

def integersBytes (l : List Int64) : List UInt8 := numberBytes l.length ++ l.flatMap integerBytes

def tyBytes : Ty → List UInt8
  | .integer w => numberBytes 0 ++ halfWordBytes w
  | .index => numberBytes 1
  | .f32 => numberBytes 2
  | .f64 => numberBytes 3
  | .none => numberBytes 4
  | .tensor shape element => numberBytes 5 ++ integersBytes shape ++ tyBytes element
  | .function inputs results =>
    numberBytes 6 ++ numberBytes inputs.length ++ inputs.flatMap tyBytes ++
      numberBytes results.length ++ results.flatMap tyBytes

def valueBytes (v : Value) : List UInt8 := halfWordBytes v.id.index ++ tyBytes v.ty

def valuesBytes (l : List Value) : List UInt8 := numberBytes l.length ++ l.flatMap valueBytes

/-- The bytes of an attribute; a floating point number counts by its bits. -/
def attributeBytes : Attribute → List UInt8
  | .unit => numberBytes 0
  | .bool b => numberBytes 1 ++ [if b then 1 else 0]
  | .integer v t => numberBytes 2 ++ integerBytes v ++ tyBytes t
  | .float v t => numberBytes 3 ++ wordBytes v.bits ++ tyBytes t
  | .string s => numberBytes 4 ++ stringBytes s
  | .type t => numberBytes 5 ++ tyBytes t
  | .array items => numberBytes 6 ++ numberBytes items.length ++ items.flatMap attributeBytes
  | .dense t vs => numberBytes 7 ++ tyBytes t ++ integersBytes vs
  | .symbol s => numberBytes 8 ++ stringBytes s

def operationBytes (op : Operation) : List UInt8 :=
  stringBytes op.name ++ valuesBytes op.operands ++ valuesBytes op.results ++
    numberBytes op.attributes.size ++
    op.attributes.entries.flatMap (fun e => stringBytes e.1 ++ attributeBytes e.2) ++
    numberBytes op.regions.length ++ op.regions.flatMap fun r =>
      numberBytes r.blocks.length ++ r.blocks.flatMap fun b =>
        valuesBytes b.arguments ++ numberBytes b.operations.length ++
          b.operations.flatMap operationBytes
termination_by op
decreasing_by exact Operation.sizeOf_lt ‹_› ‹_› ‹_›

end OpTree.Analysis.Fingerprint

namespace OpTree.Analysis

def fingerprint (op : IR.Operation) : UInt64 := SipHash.hash (Fingerprint.operationBytes op)

end OpTree.Analysis
