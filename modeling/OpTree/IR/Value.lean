import OpTree.IR.Ty

/-!
Values and source locations. A value is an id with a type; ids are compared, never ordered.
-/

namespace OpTree.IR

/-- The identity of a value within a program. -/
structure ValueId where
  index : UInt32
  deriving DecidableEq, Inhabited

/-- A value: the result of an operation, an argument of a block, or a use of either. -/
structure Value where
  id : ValueId
  ty : Ty
  deriving DecidableEq, Inhabited

/-- Where in the source an operation comes from. -/
inductive Location
  | unknown
  | fileLineCol (file : String) (line column : UInt32)
  | name (name : String)
  | fused (parts : List Location)
  deriving Inhabited

namespace Location

def isUnknown : Location → Bool
  | unknown => true
  | _ => false

/-- The text of a location. Names stand between quotes as they are. -/
def text : Location → String
  | unknown => "unknown"
  | fileLineCol file line column =>
    "\"" ++ file ++ "\":" ++ toString line.toNat ++ ":" ++ toString column.toNat
  | name n => "\"" ++ n ++ "\""
  | fused parts => "fused[" ++ Ty.commaList (parts.map text) ++ "]"

mutual

def beq : Location → Location → Bool
  | unknown, unknown => true
  | fileLineCol f l c, fileLineCol f' l' c' => f == f' && l == l' && c == c'
  | name n, name n' => n == n'
  | fused a, fused b => beqList a b
  | _, _ => false

def beqList : List Location → List Location → Bool
  | [], [] => true
  | a :: as, b :: bs => beq a b && beqList as bs
  | _, _ => false

end

end Location

end OpTree.IR
