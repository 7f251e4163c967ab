import OpTree.IR.Operation
import OpTree.Json.Decode

/-!
Reading programs from their JSON form. Records may be lists of their fields, fields with a
default may be missing, and fields of other names are skipped.
-/

namespace OpTree.IR

open OpTree.Json
open OpTree.Json.Source

variable [FloatReader]

namespace Ty

def read (budget : Nat) : Source → Except Fault Ty :=
  readVariant budget
    [ .holding "Integer" integer fun _ _ => readUInt32,
      .plain "Index" index,
      .plain "F32" f32,
      .plain "F64" f64,
      .plain "None" none,
      .carrying "Tensor" .tuple fun n _ s => do
        let r ← readTuple n "tuple variant Type::Tensor"
          [ field "0" (fun m _ => readList m fun _ _ => readInt64) fun v r => (v, r.2),
            field "1" (fun m _ => Ty.read m) fun v r => (r.1, v) ]
          (([] : List Int64), Ty.none) s
        return tensor r.1 r.2,
      .carrying "Function" .value fun n _ s => do
        let r ← readRecord n "struct FunctionType"
          [ field "inputs" (fun m _ => readList m fun k _ => Ty.read k) fun v r => (v, r.2),
            field "results" (fun m _ => readList m fun k _ => Ty.read k) fun v r => (r.1, v) ]
          (([] : List Ty), ([] : List Ty)) s
        return function r.1 r.2 ]
termination_by budget

end Ty

namespace Value

def read (budget : Nat) : Source → Except Fault Value :=
  readRecord budget "struct Value"
    [ field "id" (fun _ _ => readUInt32) fun v r => { r with id := ⟨v⟩ },
      field "ty" (fun n _ => Ty.read n) fun v r => { r with ty := v } ]
    ⟨⟨0⟩, .none⟩

end Value

namespace Location

def read (budget : Nat) : Source → Except Fault Location :=
  readVariant budget
    [ .plain "Unknown" unknown,
      .carrying "FileLineCol" .record fun n _ s => do
        let r ← readRecord n "struct variant Location::FileLineCol"
          [ field "file" (fun _ _ => readString) fun v r => (v, r.2),
            field "line" (fun _ _ => readUInt32) fun v r => (r.1, v, r.2.2),
            field "column" (fun _ _ => readUInt32) fun v r => (r.1, r.2.1, v) ]
          ("", (0 : UInt32), (0 : UInt32)) s
        return fileLineCol r.1 r.2.1 r.2.2,
      .holding "Name" name fun _ _ => readString,
      .holding "Fused" fused fun n _ => readList n fun m _ => Location.read m ]
termination_by budget

end Location

namespace Attribute

def read (budget : Nat) : Source → Except Fault Attribute :=
  readVariant budget
    [ .plain "Unit" unit,
      .holding "Bool" bool fun _ _ => readBool,
      .carrying "Integer" .tuple fun n _ s => do
        let r ← readTuple n "tuple variant Attribute::Integer"
          [ field "0" (fun _ _ => readInt64) fun v r => (v, r.2),
            field "1" (fun m _ => Ty.read m) fun v r => (r.1, v) ]
          ((0 : Int64), Ty.none) s
        return integer r.1 r.2,
      .carrying "Float" .tuple fun n _ s => do
        let r ← readTuple n "tuple variant Attribute::Float"
          [ field "0" (fun _ _ => readFloat) fun v r => (v, r.2),
            field "1" (fun m _ => Ty.read m) fun v r => (r.1, v) ]
          ((⟨0⟩ : OpTree.Number.Binary64), Ty.none) s
        return float r.1 r.2,
      .holding "String" string fun _ _ => readString,
      .holding "Type" type fun n _ => Ty.read n,
      .holding "Array" array fun n _ => readList n fun m _ => Attribute.read m,
      .carrying "DenseElements" .record fun n _ s => do
        let r ← readRecord n "struct variant Attribute::DenseElements"
          [ field "ty" (fun m _ => Ty.read m) fun v r => (v, r.2),
            field "values" (fun m _ => readList m fun _ _ => readInt64) fun v r => (r.1, v) ]
          (Ty.none, ([] : List Int64)) s
        return dense r.1 r.2,
      .holding "SymbolRef" symbol fun _ _ => readString ]
termination_by budget

/-- Reads named attributes. A name that comes twice keeps its place and takes the later value. -/
def readMap (budget : Nat) (s : Source) : Except Fault (Data.OrderedMap Attribute) :=
  Data.OrderedMap.ofList <$> readPairs budget (fun n _ => Attribute.read n) s

end Attribute

def readValues (budget : Nat) : Source → Except Fault (List Value) :=
  readList budget fun n _ => Value.read n

/-- Reads a block, given how to read the operations in it. -/
def Block.readWith (budget : Nat)
    (operation : Below budget (Source → Except Fault Operation)) :
    Source → Except Fault Block :=
  readRecord budget "struct Block"
    [ optionalField "arguments" (fun n _ => readValues n) fun v r => { r with arguments := v },
      optionalField "operations"
        (fun n hn => readList n fun m hm => operation m (Nat.lt_trans hm hn))
        fun v r => { r with operations := v } ]
    {}

/-- Reads a region, given how to read the operations in it. -/
def Region.readWith (budget : Nat)
    (operation : Below budget (Source → Except Fault Operation)) :
    Source → Except Fault Region :=
  readRecord budget "struct Region"
    [ field "blocks"
        (fun n hn => readList n fun m hm =>
          Block.readWith m fun k hk => operation k (Nat.lt_trans hk (Nat.lt_trans hm hn)))
        fun v _ => { blocks := v } ]
    { blocks := [] }

namespace Operation

def read (budget : Nat) : Source → Except Fault Operation :=
  readRecord budget "struct Operation"
    [ field "name" (fun _ _ => readString) fun v r => { r with name := v },
      optionalField "operands" (fun n _ => readValues n) fun v r => { r with operands := v },
      optionalField "results" (fun n _ => readValues n) fun v r => { r with results := v },
      optionalField "attributes" (fun n _ => Attribute.readMap n)
        fun v r => { r with attributes := v },
      optionalField "regions"
        (fun n _ => readList n fun m _ => Region.readWith m fun k _ => Operation.read k)
        fun v r => { r with regions := v },
      optionalField "location" (fun n _ => Location.read n) fun v r => { r with location := v } ]
    { name := "" }
termination_by budget

/-- The program that a JSON text stands for. -/
def load (text : String) : Except Fault Operation := decode (read nestingBudget) text

/-- What is reported when a text stands for no program. -/
def loadMessage (f : Fault) : String := "Failed to load IR: " ++ f.message

end Operation

def Block.read (budget : Nat) : Source → Except Fault Block :=
  Block.readWith budget fun n _ => Operation.read n

def Region.read (budget : Nat) : Source → Except Fault Region :=
  Region.readWith budget fun n _ => Operation.read n

end OpTree.IR
