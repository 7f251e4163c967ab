/-!
The types of values, and how they are written: `i32`, `tensor<2x?xf32>`, `(i32) -> index`.
-/

namespace OpTree.IR

/-- The type of a value. A negative dimension of a tensor stands for an unknown extent. -/
inductive Ty
  | integer (width : UInt32)
  | index
  | f32
  | f64
  | none
  | tensor (shape : List Int64) (element : Ty)
  | function (inputs results : List Ty)
  deriving Inhabited

namespace Ty

/-- The text of a dimension with the cross behind it. -/
def dimensionText (d : Int64) : String :=
  (if d < 0 then "?" else toString d.toInt) ++ "x"

/-- Texts separated by a comma and a space. -/
def commaList (l : List String) : String := ", ".intercalate l

def isFunction : Ty → Bool
  | function .. => true
  | _ => false

/-- The results of a function type, given their texts: bare when there is one that is not a
function itself, in parentheses otherwise. -/
def resultsText (results : List Ty) (texts : List String) : String :=
  if results.length = 1 ∧ ¬ results.any isFunction then commaList texts
  else "(" ++ commaList texts ++ ")"

def text : Ty → String
  | integer w => "i" ++ toString w.toNat
  | index => "index"
  | f32 => "f32"
  | f64 => "f64"
  | none => "none"
  | tensor shape element =>
    "tensor<" ++ String.join (shape.map dimensionText) ++ element.text ++ ">"
  | function inputs results =>
    "(" ++ commaList (inputs.map text) ++ ") -> " ++ resultsText results (results.map text)

mutual

def beq : Ty → Ty → Bool
  | integer a, integer b => a == b
  | index, index => true
  | f32, f32 => true
  | f64, f64 => true
  | none, none => true
  | tensor s a, tensor t b => s == t && beq a b
  | function a b, function c d => beqList a c && beqList b d
  | _, _ => false

def beqList : List Ty → List Ty → Bool
  | [], [] => true
  | a :: as, b :: bs => beq a b && beqList as bs
  | _, _ => false

end

mutual

theorem eq_of_beq : ∀ {a b : Ty}, beq a b = true → a = b
  | integer _, b, h => by cases b <;> simp_all [beq]
  | index, b, h => by cases b <;> simp_all [beq]
  | f32, b, h => by cases b <;> simp_all [beq]
  | f64, b, h => by cases b <;> simp_all [beq]
  | none, b, h => by cases b <;> simp_all [beq]
  | tensor s a, b, h => by
    cases b <;> simp only [beq, Bool.and_eq_true, beq_iff_eq, Bool.false_eq_true] at h
    rw [h.1, eq_of_beq h.2]
  | function a b, c, h => by
    cases c <;> simp only [beq, Bool.and_eq_true, Bool.false_eq_true] at h
    rw [eq_of_beqList h.1, eq_of_beqList h.2]

theorem eq_of_beqList : ∀ {a b : List Ty}, beqList a b = true → a = b
  | [], b, h => by cases b <;> simp_all [beqList]
  | x :: xs, b, h => by
    cases b <;> simp only [beqList, Bool.and_eq_true, Bool.false_eq_true] at h
    rw [eq_of_beq h.1, eq_of_beqList h.2]

end

mutual

theorem beq_self : ∀ a : Ty, beq a a = true
  | integer _ | index | f32 | f64 | none => by simp [beq]
  | tensor _ a => by simp [beq, beq_self a]
  | function a b => by simp [beq, beqList_self a, beqList_self b]

theorem beqList_self : ∀ a : List Ty, beqList a a = true
  | [] => by simp [beqList]
  | x :: xs => by simp [beqList, beq_self x, beqList_self xs]

end

instance : DecidableEq Ty := fun a b =>
  if h : beq a b = true then isTrue (eq_of_beq h)
  else isFalse fun e => h (e ▸ beq_self a)

end Ty

end OpTree.IR
