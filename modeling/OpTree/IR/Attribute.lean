import OpTree.IR.Value
import OpTree.Number.Binary64
import OpTree.Data.OrderedMap

/-!
Attributes: the constant data that operations carry under names.
-/

namespace OpTree.IR

open OpTree.Number

/-- A constant. -/
inductive Attribute
  | unit
  | bool (b : Bool)
  | integer (value : Int64) (ty : Ty)
  | float (value : Binary64) (ty : Ty)
  | string (s : String)
  | type (ty : Ty)
  | array (items : List Attribute)
  | dense (ty : Ty) (values : List Int64)
  | symbol (name : String)
  deriving Inhabited

namespace Attribute

/-- The attribute is a mere flag. -/
def isUnit : Attribute → Bool
  | unit => true
  | _ => false

mutual

/-- Equality of attributes as values: floating point numbers are compared as numbers. -/
def same : Attribute → Attribute → Bool
  | unit, unit => true
  | bool a, bool b => a == b
  | integer a t, integer b u => a == b && t == u
  | float a t, float b u => a.sameValue b && t == u
  | string a, string b => a == b
  | type t, type u => t == u
  | array a, array b => sameItems a b
  | dense t a, dense u b => t == u && a == b
  | symbol a, symbol b => a == b
  | _, _ => false

/-- Equality of lists of attributes as values. -/
def sameItems : List Attribute → List Attribute → Bool
  | [], [] => true
  | a :: as, b :: bs => same a b && sameItems as bs
  | _, _ => false

end

/-- Equality of attribute maps: the same names with the same values, in any order. -/
def sameMap (m n : Data.OrderedMap Attribute) : Bool :=
  m.size == n.size && m.entries.all fun e => (n.get? e.1).any (same e.2)

end Attribute

end OpTree.IR
