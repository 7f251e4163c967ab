import OpTree.IR.Operation
import OpTree.Text.Blank

/-!
Building programs: a supply of fresh values, and the check that an operation has a name and its
attributes have names.
-/

namespace OpTree.IR

/-- Hands out values with ids that were not handed out before. -/
structure ValueSupply where
  next : UInt32 := 0
  deriving DecidableEq

namespace ValueSupply

def fresh (s : ValueSupply) (ty : Ty) : Value × ValueSupply :=
  (⟨⟨s.next⟩, ty⟩, ⟨s.next + 1⟩)

/-- New values, one per type. -/
def freshList (s : ValueSupply) : List Ty → List Value × ValueSupply
  | [] => ([], s)
  | t :: ts =>
    let (v, s) := s.fresh t
    let (vs, s) := freshList s ts
    (v :: vs, s)

/-- A block with new arguments of the given types. -/
def block (s : ValueSupply) (types : List Ty) : Block × ValueSupply :=
  let (vs, s) := s.freshList types
  ({ arguments := vs }, s)

end ValueSupply

/-- Why an operation cannot be built. -/
inductive BuildError
  | emptyName
  | invalidName (name : String)
  | emptyAttributeName (operation : String)
  deriving DecidableEq

namespace BuildError

/-- The error is about an attribute, not about the operation itself. -/
def isAboutAttribute : BuildError → Bool
  | emptyAttributeName _ => true
  | _ => false

def message : BuildError → String
  | emptyName => "Invalid operation: operation name must not be empty"
  | invalidName n => "Invalid operation: invalid operation name '" ++ n ++ "'"
  | emptyAttributeName op => "Invalid attribute: empty attribute name on '" ++ op ++ "'"

end BuildError

namespace Operation

/-- A name for an operation holds no white space and no quote. -/
def isNameChar (c : Char) : Bool := !Text.isBlank c && c != '"'

/-- The operation itself, if its name and the names of its attributes are admissible. -/
def build (op : Operation) : Except BuildError Operation :=
  if op.name.isEmpty then .error .emptyName
  else if ¬ op.name.toList.all isNameChar then .error (.invalidName op.name)
  else if op.attributes.keys.any (·.isEmpty) then .error (.emptyAttributeName op.name)
  else .ok op

/-- A program: an operation `builtin.module` around one block. -/
def module (body : Block) : Operation where
  name := "builtin.module"
  regions := [{ blocks := [body] }]

end Operation

end OpTree.IR
