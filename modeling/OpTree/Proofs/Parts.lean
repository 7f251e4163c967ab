import OpTree.IR.Attribute

/-!
Induction over types, locations and attributes, along the lists of parts that they hold.
-/

namespace OpTree.IR

open OpTree.Number

@[elab_as_elim]
theorem Ty.nested_induction {motive : Ty → Prop} (integer : ∀ w, motive (.integer w))
    (index : motive .index) (f32 : motive .f32) (f64 : motive .f64) (none : motive .none)
    (tensor : ∀ shape element, motive element → motive (.tensor shape element))
    (function : ∀ inputs results, (∀ t ∈ inputs, motive t) → (∀ t ∈ results, motive t) →
      motive (.function inputs results)) (t : Ty) : motive t := by
  cases t with
  | integer w => exact integer w
  | index => exact index
  | f32 => exact f32
  | f64 => exact f64
  | none => exact none
  | tensor shape element =>
    exact tensor shape element
      (nested_induction integer index f32 f64 none tensor function element)
  | function inputs results =>
    exact function inputs results
      (fun t _ => nested_induction integer index f32 f64 none tensor function t)
      (fun t _ => nested_induction integer index f32 f64 none tensor function t)

@[elab_as_elim]
theorem Location.nested_induction {motive : Location → Prop} (unknown : motive .unknown)
    (fileLineCol : ∀ file line column, motive (.fileLineCol file line column))
    (name : ∀ n, motive (.name n))
    (fused : ∀ parts, (∀ l ∈ parts, motive l) → motive (.fused parts)) (l : Location) :
    motive l := by
  cases l with
  | unknown => exact unknown
  | fileLineCol file line column => exact fileLineCol file line column
  | name n => exact name n
  | fused parts =>
    exact fused parts fun l _ => nested_induction unknown fileLineCol name fused l

@[elab_as_elim]
theorem Attribute.nested_induction {motive : Attribute → Prop} (unit : motive .unit)
    (bool : ∀ b, motive (.bool b)) (integer : ∀ v t, motive (.integer v t))
    (float : ∀ v t, motive (.float v t)) (string : ∀ s, motive (.string s))
    (type : ∀ t, motive (.type t))
    (array : ∀ items, (∀ a ∈ items, motive a) → motive (.array items))
    (dense : ∀ t values, motive (.dense t values)) (symbol : ∀ name, motive (.symbol name))
    (a : Attribute) : motive a := by
  cases a with
  | unit => exact unit
  | bool b => exact bool b
  | integer v t => exact integer v t
  | float v t => exact float v t
  | string s => exact string s
  | type t => exact type t
  | array items =>
    exact array items fun a _ =>
      nested_induction unit bool integer float string type array dense symbol a
  | dense t values => exact dense t values
  | symbol name => exact symbol name

end OpTree.IR
