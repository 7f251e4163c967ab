import OpTree.IR.Operation
import OpTree.Json.Value

/-!
The JSON form of programs. A form among several is written as its name, or as an object with
its name as the only key; records are objects of their fields in order.
-/

namespace OpTree.IR

open OpTree.Json (Value)

def int64Json (n : Int64) : Json.Value := .int n.toInt

def uint32Json (n : UInt32) : Json.Value := .int n.toNat

namespace Ty

def toJson : Ty → Json.Value
  | integer w => .tagged "Integer" (uint32Json w)
  | index => .string "Index"
  | f32 => .string "F32"
  | f64 => .string "F64"
  | none => .string "None"
  | tensor shape element =>
    .tagged "Tensor" (.list [.list (shape.map int64Json), element.toJson])
  | function inputs results =>
    .tagged "Function"
      (.object [("inputs", .list (inputs.map toJson)), ("results", .list (results.map toJson))])

end Ty

namespace Value

def toJson (v : Value) : Json.Value :=
  .object [("id", uint32Json v.id.index), ("ty", v.ty.toJson)]

end Value

namespace Location

def toJson : Location → Json.Value
  | unknown => .string "Unknown"
  | fileLineCol file line column =>
    .tagged "FileLineCol"
      (.object [("file", .string file), ("line", uint32Json line), ("column", uint32Json column)])
  | name n => .tagged "Name" (.string n)
  | fused parts => .tagged "Fused" (.list (parts.map toJson))

end Location

namespace Attribute

def toJson : Attribute → Json.Value
  | unit => .string "Unit"
  | bool b => .tagged "Bool" (.bool b)
  | integer v ty => .tagged "Integer" (.list [int64Json v, ty.toJson])
  | float v ty => .tagged "Float" (.list [.float v, ty.toJson])
  | string s => .tagged "String" (.string s)
  | type ty => .tagged "Type" ty.toJson
  | array items => .tagged "Array" (.list (items.map toJson))
  | dense ty values =>
    .tagged "DenseElements"
      (.object [("ty", ty.toJson), ("values", .list (values.map int64Json))])
  | symbol name => .tagged "SymbolRef" (.string name)

end Attribute

namespace Operation

/-- The JSON form of an operation with everything in it. -/
def toJson (op : Operation) : Json.Value :=
  .object
    [ ("name", .string op.name),
      ("operands", .list (op.operands.map Value.toJson)),
      ("results", .list (op.results.map Value.toJson)),
      ("attributes", .object (op.attributes.entries.map fun e => (e.1, e.2.toJson))),
      ("regions", .list (op.regions.map fun r => .object
        [("blocks", .list (r.blocks.map fun b => .object
          [ ("arguments", .list (b.arguments.map Value.toJson)),
            ("operations", .list (b.operations.map toJson)) ]))])),
      ("location", op.location.toJson) ]
termination_by op
decreasing_by exact sizeOf_lt ‹_› ‹_› ‹_›

/-- The JSON text of a program. -/
def save (op : Operation) : String := op.toJson.pretty

end Operation

def Block.toJson (b : Block) : Json.Value :=
  .object
    [ ("arguments", .list (b.arguments.map Value.toJson)),
      ("operations", .list (b.operations.map Operation.toJson)) ]

end OpTree.IR
