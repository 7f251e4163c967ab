import OpTree.IR.Operation
import OpTree.Number.Layout
import OpTree.Print.Flags
import OpTree.Text.Quoted

/-!
The text of attributes, attribute lists and signatures in the text form of operations.
-/

namespace OpTree.Print

open OpTree.IR

/-- Floating point attributes are written positionally from `1e-4` up to below `1e16`, and with
a bare exponent outside; of two equally near shortest decimals the larger is taken. -/
def floatLayout : Number.Layout := ⟨-4, 15, false, .up⟩

/-- The elements of a dense attribute: one if all are equal, else all of them in brackets. -/
def elementsText (values : List Int64) : String :=
  let bracketed := "[" ++ Ty.commaList (values.map fun v => toString v.toInt) ++ "]"
  match values with
  | [] => bracketed
  | v :: vs => if vs.all (· == v) then toString v.toInt else bracketed

def denseText (f : Flags) (ty : Ty) (values : List Int64) : String :=
  (if f.elides values.length then "dense_resource<__elided__>"
   else "dense<" ++ elementsText values ++ ">") ++ " : " ++ ty.text

def attributeText (f : Flags) : Attribute → String
  | .unit => "unit"
  | .bool b => toString b
  | .integer v ty => toString v.toInt ++ " : " ++ ty.text
  | .float v ty => floatLayout.text v ++ " : " ++ ty.text
  | .string s => Text.quote s
  | .type ty => ty.text
  | .array items => "[" ++ Ty.commaList (items.map (attributeText f)) ++ "]"
  | .dense ty values => denseText f ty values
  | .symbol name => "@" ++ name

/-- The text of a named attribute: a mere flag is written as its name. -/
def entryText (f : Flags) (e : String × Attribute) : String :=
  if e.2.isUnit then e.1 else e.1 ++ " = " ++ attributeText f e.2

/-- The attributes of an operation in braces, or nothing if there are none. -/
def attributesText (f : Flags) (op : Operation) : String :=
  if op.attributes.isEmpty then ""
  else "\x7b" ++ Ty.commaList (op.attributes.entries.map (entryText f)) ++ "\x7d"

/-- The type of an operation: a function from its operands to its results. -/
def signature (op : Operation) : Ty :=
  .function (op.operands.map (·.ty)) (op.results.map (·.ty))

end OpTree.Print
