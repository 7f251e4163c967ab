import OpTree.Print.AttributeText
import OpTree.Proofs.TypeText

/-!
Attributes can be told from their texts, up to negative dimensions, the number of elements that
are all the same, and what is no number.
-/

namespace OpTree

open OpTree.Number OpTree.Text OpTree.Json OpTree.IR

namespace Print

/-! ### Numbers -/

/-- A number as it is written in an attribute. -/
inductive NumberText
  | nan
  | infinite (negative : Bool)
  | numeral (n : Numeral)

namespace NumberText

def chars : NumberText → List Char
  | nan => ['N', 'a', 'N']
  | infinite negative => if negative then ['-', 'i', 'n', 'f'] else ['i', 'n', 'f']
  | numeral n => n.text false

def WellFormed : NumberText → Prop
  | numeral n => n.WellFormed
  | _ => True

lemma tells_infinite {negative : Bool} {n : Numeral} (hn : n.WellFormed) {p : Prop} :
    Tells p (infinite negative).chars (n.text false) ∧
      Tells p (n.text false) (infinite negative).chars := by
  obtain ⟨c, r, hcr, hc | ⟨rfl, d, r', rfl, hd⟩⟩ := exists_text_eq_cons hn false
  · have hne : ∀ e ∈ ['i', '-'], e ≠ c := by
      rintro e he rfl
      simp only [List.mem_cons, List.not_mem_nil, or_false] at he
      rcases he with rfl | rfl <;> exact absurd hc (by decide)
    rw [hcr]
    cases negative
    · exact ⟨.of_ne (hne 'i' (by simp)), .of_ne (hne 'i' (by simp)).symm⟩
    · exact ⟨.of_ne (hne '-' (by simp)), .of_ne (hne '-' (by simp)).symm⟩
  · have hne : 'i' ≠ d := by
      rintro rfl
      exact absurd hd (by decide)
    rw [hcr]
    cases negative
    · exact ⟨.of_ne (by decide), .of_ne (by decide)⟩
    · exact ⟨.cons (.of_ne hne), .cons (.of_ne hne.symm)⟩

lemma tells_nan {n : Numeral} (hn : n.WellFormed) {p : Prop} :
    Tells p nan.chars (n.text false) ∧ Tells p (n.text false) nan.chars := by
  obtain ⟨c, r, hcr, hc⟩ := exists_text_eq_cons hn false
  have hne : 'N' ≠ c := by
    rintro rfl
    rcases hc with hc | ⟨hc, -⟩
    · exact absurd hc (by decide)
    · exact absurd hc (by decide)
  rw [hcr]
  exact ⟨.of_ne hne, .of_ne hne.symm⟩

lemma tells_chars {s t : NumberText} (hs : s.WellFormed) (ht : t.WellFormed) :
    Tells (s = t) s.chars t.chars := by
  cases s with
  | nan =>
    cases t with
    | nan => exact .same rfl _
    | infinite negative => cases negative <;> exact .of_ne (by decide)
    | numeral n => exact (tells_nan ht).1
  | infinite negative =>
    cases t with
    | nan => cases negative <;> exact .of_ne (by decide)
    | infinite negative' =>
      cases negative <;> cases negative'
      · exact .same rfl _
      · exact .of_ne (by decide)
      · exact .of_ne (by decide)
      · exact .same rfl _
    | numeral n => exact (tells_infinite ht).1
  | numeral n =>
    cases t with
    | nan => exact (tells_nan hs).2
    | infinite negative => exact (tells_infinite hs).2
    | numeral m => exact (tells_numeral hs ht false).imp (congrArg _)

def ofFloat (x : Binary64) : NumberText :=
  if x.isNaN then nan
  else if x.isFinite then numeral (floatLayout.numeral x)
  else infinite x.isNegative

lemma toList_text (x : Binary64) : (floatLayout.text x).toList = (ofFloat x).chars := by
  unfold ofFloat
  split
  · rename_i hnan
    rw [Layout.text, if_pos hnan]
    rfl
  · rename_i hnan
    split
    · rename_i hfin
      exact Layout.text_eq floatLayout hfin
    · rename_i hfin
      rw [Layout.text, if_neg hnan, if_neg hfin, String.toList_ofList]
      rfl

lemma wellFormed_ofFloat (x : Binary64) : (ofFloat x).WellFormed := by
  unfold ofFloat
  split
  · trivial
  · split
    · rename_i hfin
      exact Layout.wellFormed_numeral floatLayout hfin
    · trivial

end NumberText

end Print

namespace Number.Binary64

/-- The word that stands for all words that are written like this one. -/
def canonical (x : Binary64) : Binary64 := if x.isNaN then ⟨0x7ff8000000000000⟩ else x

lemma canonical_of_not_isNaN {x : Binary64} (hx : x.isNaN = false) : x.canonical = x := by
  rw [canonical, hx, if_neg Bool.false_ne_true]

lemma eq_of_infinite {x y : Binary64} (hx : x.isNaN = false) (hx' : x.isFinite = false)
    (hy : y.isNaN = false) (hy' : y.isFinite = false) (h : x.isNegative = y.isNegative) :
    x = y := by
  simp only [isNaN, isFinite, decide_eq_false_iff_not] at hx hx' hy hy'
  rw [← ofMagnitude_magnitude x, ← ofMagnitude_magnitude y, h,
    show x.magnitude = y.magnitude by omega]

end Number.Binary64

namespace Print.NumberText

lemma ofFloat_inj {x y : Binary64} (h : ofFloat x = ofFloat y) : x.canonical = y.canonical := by
  have hnan (x : Binary64) (hx : x.isNaN = true) : ofFloat x = nan := if_pos hx
  have hinf (x : Binary64) (hx : x.isNaN = false) (hfin : x.isFinite = false) :
      ofFloat x = infinite x.isNegative := by simp [ofFloat, hx, hfin]
  have hnum (x : Binary64) (hx : x.isNaN = false) (hfin : x.isFinite = true) :
      ofFloat x = numeral (floatLayout.numeral x) := by simp [ofFloat, hx, hfin]
  cases hx : x.isNaN <;> cases hy : y.isNaN
  · rw [Binary64.canonical_of_not_isNaN hx, Binary64.canonical_of_not_isNaN hy]
    cases hx' : x.isFinite <;> cases hy' : y.isFinite
    · rw [hinf x hx hx', hinf y hy hy'] at h
      exact Binary64.eq_of_infinite hx hx' hy hy' (by injection h)
    · rw [hinf x hx hx', hnum y hy hy'] at h
      cases h
    · rw [hnum x hx hx', hinf y hy hy'] at h
      cases h
    · rw [hnum x hx hx', hnum y hy hy'] at h
      exact Layout.eq_of_numeral_eq floatLayout hx' hy' (NumberText.numeral.inj h)
  · rw [hnan y hy] at h
    cases hx' : x.isFinite
    · rw [hinf x hx hx'] at h
      cases h
    · rw [hnum x hx hx'] at h
      cases h
  · rw [hnan x hx] at h
    cases hy' : y.isFinite
    · rw [hinf y hy hy'] at h
      cases h
    · rw [hnum y hy hy'] at h
      cases h
  · simp [Binary64.canonical, hx, hy]

lemma numeral_ofInt_ne_ofFloat (v : Int64) (x : Binary64) :
    numeral (.ofInt v.toInt) ≠ ofFloat x := by
  intro h
  unfold ofFloat at h
  split at h
  · cases h
  · split at h
    · rename_i hfin
      have hnot := Layout.numeral_not_whole floatLayout hfin
      rw [← NumberText.numeral.inj h] at hnot
      simp [Numeral.ofInt] at hnot
    · cases h

end Print.NumberText

/-! ### Elements -/

namespace IR.Attribute

/-- The elements of a dense attribute, only one of them if all are the same. -/
def normalElements : List Int64 → List Int64
  | [] => []
  | v :: vs => if vs.all (· == v) then [v] else v :: vs

/-- The attribute without what its text does not show. -/
def normal : Attribute → Attribute
  | integer v ty => .integer v ty.normal
  | float v ty => .float v.canonical ty.normal
  | type ty => .type ty.normal
  | array items => .array (items.map normal)
  | dense ty values => .dense ty.normal (normalElements values)
  | a => a

/-- The attributes that are no arrays: the attribute itself, or those in the array. -/
def leaves : Attribute → List Attribute
  | array items => items.flatMap leaves
  | a => [a]

end IR.Attribute

namespace Print

open IR.Attribute

def integerChars (v : Int64) : List Char := (NumberText.numeral (.ofInt v.toInt)).chars

lemma toList_toString_int64 (v : Int64) : (toString v.toInt).toList = integerChars v :=
  Numeral.text_ofInt v.toInt false

lemma tells_integerChars (v w : Int64) : Tells (v = w) (integerChars v) (integerChars w) := by
  refine (NumberText.tells_chars (s := .numeral _) (t := .numeral _)
    (Numeral.wellFormed_ofInt v.toInt) (Numeral.wellFormed_ofInt w.toInt)).imp fun h => ?_
  have hv := v.le_toInt
  have hv' := v.toInt_lt
  have hw := w.le_toInt
  have hw' := w.toInt_lt
  have hnumber := Numeral.number_ofInt (n := v.toInt) (by omega) (by omega)
  rw [NumberText.numeral.inj h, Numeral.number_ofInt (by omega) (by omega)] at hnumber
  injection hnumber with hnumber
  injection hnumber with hnumber
  exact Int64.toInt_inj.mp hnumber.symm

lemma exists_integerChars_eq_cons (v : Int64) :
    ∃ c r, integerChars v = c :: r ∧ (c.isDigit = true ∨ c = '-') := by
  obtain ⟨c, r, hcr, hc⟩ := exists_text_eq_cons (Numeral.wellFormed_ofInt v.toInt) false
  exact ⟨c, r, hcr, hc.imp_right And.left⟩

lemma exists_integerChars_ne {d : Char} (hd : d.isDigit = false) (hd' : d ≠ '-') (v : Int64) :
    ∃ c r, integerChars v = c :: r ∧ c ≠ d := by
  obtain ⟨c, r, hcr, hc⟩ := exists_integerChars_eq_cons v
  refine ⟨c, r, hcr, ?_⟩
  rintro rfl
  rcases hc with hc | hc
  · rw [hd] at hc
    cases hc
  · exact hd' hc

lemma toList_elementsText (values : List Int64) :
    (∃ v, normalElements values = [v] ∧ (elementsText values).toList = integerChars v) ∨
    (elementsText values).toList =
      '[' :: ([',', ' '].intercalate ((normalElements values).map integerChars) ++ [']']) := by
  have hbracketed : ("[" ++ Ty.commaList (values.map fun v => toString v.toInt) ++ "]").toList =
      '[' :: ([',', ' '].intercalate (values.map integerChars) ++ [']']) := by
    have hmap : (values.map fun v => toString v.toInt).map String.toList =
        values.map integerChars := by
      rw [List.map_map]
      exact List.map_congr_left fun v _ => toList_toString_int64 v
    rw [String.toList_append, String.toList_append, Ty.toList_commaList, hmap]
    rfl
  unfold elementsText
  cases values with
  | nil => exact .inr hbracketed
  | cons v vs =>
    simp only [normalElements]
    split
    · exact .inl ⟨v, rfl, toList_toString_int64 v⟩
    · exact .inr hbracketed

lemma tells_elementsText (values values' : List Int64) :
    Tells (normalElements values = normalElements values') (elementsText values).toList
      (elementsText values').toList := by
  have hbracket (v : Int64) := exists_integerChars_ne (d := '[') (by decide) (by decide) v
  have hclose (v : Int64) := exists_integerChars_ne (d := ']') (by decide) (by decide) v
  rcases toList_elementsText values with ⟨v, hv, htext⟩ | htext <;>
    rcases toList_elementsText values' with ⟨w, hw, htext'⟩ | htext' <;> rw [htext, htext']
  · refine (tells_integerChars v w).imp fun h => ?_
    rw [hv, hw, h]
  · obtain ⟨c, r, hcr, hne⟩ := hbracket v
    rw [hcr]
    exact .of_ne hne
  · obtain ⟨c, r, hcr, hne⟩ := hbracket w
    rw [hcr]
    exact .of_ne hne.symm
  · intro x y _ _ heq
    simp only [List.cons_append, List.append_assoc, List.nil_append, List.cons.injEq,
      true_and] at heq
    simpa using intercalate_append_inj (g := id) (by decide) (by decide)
      (fun v _ w _ => tells_integerChars v w) (fun v _ => hclose v) (fun v _ => hclose v) heq

/-! ### Attributes -/

section

variable {f : Flags} (hf : f.elideAbove = none)

lemma toList_attributeText_integer (v : Int64) (ty : Ty) :
    (attributeText f (.integer v ty)).toList =
      integerChars v ++ ' ' :: ':' :: ' ' :: ty.text.toList := by
  rw [attributeText, String.toList_append, String.toList_append, toList_toString_int64,
    List.append_assoc]
  rfl

lemma toList_attributeText_float (v : Binary64) (ty : Ty) :
    (attributeText f (.float v ty)).toList =
      (NumberText.ofFloat v).chars ++ ' ' :: ':' :: ' ' :: ty.text.toList := by
  rw [attributeText, String.toList_append, String.toList_append, NumberText.toList_text,
    List.append_assoc]
  rfl

lemma toList_attributeText_array (items : List Attribute) :
    (attributeText f (.array items)).toList =
      '[' :: ([',', ' '].intercalate (items.map fun a => (attributeText f a).toList) ++ [']']) := by
  rw [attributeText, String.toList_append, String.toList_append, Ty.toList_commaList,
    List.map_map]
  rfl

lemma toList_attributeText_symbol (name : String) :
    (attributeText f (.symbol name)).toList = '@' :: name.toList := by
  rw [attributeText, String.toList_append]
  rfl

include hf in
lemma toList_attributeText_dense (ty : Ty) (values : List Int64) :
    (attributeText f (.dense ty values)).toList =
      ['d', 'e', 'n', 's', 'e', '<'] ++ ((elementsText values).toList ++
        '>' :: ' ' :: ':' :: ' ' :: ty.text.toList) := by
  have helides : f.elides values.length = false := by simp [Flags.elides, hf]
  rw [attributeText, denseText, helides, if_neg Bool.false_ne_true]
  simp only [String.toList_append, List.append_assoc]
  rfl

end

/-- The kind of an attribute, as far as its text begins differently. -/
def formOf : Attribute → ℕ
  | .unit => 0
  | .bool _ => 1
  | .integer .. => 2
  | .float .. => 2
  | .string _ => 3
  | .type _ => 4
  | .array _ => 5
  | .dense .. => 6
  | .symbol _ => 7

/-- The kind of an attribute, as told by the first three characters of its text. -/
def formOfText : List Char → ℕ
  | 'u' :: _ => 0
  | 't' :: 'r' :: _ => 1
  | 'f' :: 'a' :: _ => 1
  | '"' :: _ => 3
  | '[' :: _ => 5
  | 'd' :: _ => 6
  | '@' :: _ => 7
  | 'i' :: 'n' :: 'f' :: _ => 2
  | 'N' :: _ => 2
  | '-' :: _ => 2
  | c :: _ => if c.isDigit then 2 else 4
  | [] => 4

lemma formOfText_digit {c : Char} (hc : c.isDigit = true) (x : List Char) :
    formOfText (c :: x) = 2 := by
  unfold formOfText
  split
  case h_11 heq =>
    rw [← (List.cons.inj heq).1, if_pos hc]
  all_goals
    rename_i heq
    first
    | rfl
    | rw [(List.cons.inj heq).1] at hc
      exact absurd hc (by decide)
    | cases heq

lemma formOfText_number {s : NumberText} (hs : s.WellFormed) (x : List Char) :
    formOfText (s.chars ++ x) = 2 := by
  cases s with
  | nan => rfl
  | infinite negative => cases negative <;> rfl
  | numeral n =>
    obtain ⟨c, r, hcr, hc | ⟨rfl, -⟩⟩ := exists_text_eq_cons hs false
    · rw [NumberText.chars, hcr, List.cons_append, formOfText_digit hc]
    · rw [NumberText.chars, hcr]
      rfl

lemma formOfText_type (t : Ty) (x : List Char) : formOfText (t.text.toList ++ x) = 4 := by
  cases t with
  | integer w =>
    obtain ⟨c, r, hcr⟩ := List.exists_cons_of_ne_nil
      (Nat.toDigits_ne_nil (b := 10) (n := w.toNat))
    have hc : c.isDigit = true := isDigit_of_mem_toDigits (n := w.toNat) c (by simp [hcr])
    have hn : ¬ c = 'n' := by
      rintro rfl
      exact absurd hc (by decide)
    rw [Ty.toList_text_integer, hcr, List.cons_append, List.cons_append, formOfText]
    · rfl
    all_goals simp [hn]
  | index => rw [Ty.toList_text_index]; rfl
  | f32 => rw [Ty.toList_text_f32]; rfl
  | f64 => rw [Ty.toList_text_f64]; rfl
  | none => rw [Ty.toList_text_none]; rfl
  | tensor shape element => rw [Ty.toList_text_tensor]; rfl
  | function inputs results => rw [Ty.toList_text_function]; rfl

section

variable {f : Flags} (hf : f.elideAbove = none)

include hf

lemma formOfText_attributeText (a : Attribute) (x : List Char) :
    formOfText ((attributeText f a).toList ++ x) = formOf a := by
  cases a with
  | unit => rw [attributeText]; rfl
  | bool b => cases b <;> rw [attributeText] <;> rfl
  | integer v ty =>
    rw [toList_attributeText_integer, integerChars, List.append_assoc,
      formOfText_number (s := .numeral _) (Numeral.wellFormed_ofInt v.toInt)]
    rfl
  | float v ty =>
    rw [toList_attributeText_float, List.append_assoc,
      formOfText_number (NumberText.wellFormed_ofFloat v)]
    rfl
  | string s => rw [attributeText, quote, String.toList_ofList]; rfl
  | type ty => rw [attributeText, formOfText_type]; rfl
  | array items => rw [toList_attributeText_array]; rfl
  | dense ty values => rw [toList_attributeText_dense hf]; rfl
  | symbol name => rw [toList_attributeText_symbol]; rfl

lemma formOf_eq {a b : Attribute} {x y : List Char}
    (h : (attributeText f a).toList ++ x = (attributeText f b).toList ++ y) :
    formOf a = formOf b := by
  rw [← formOfText_attributeText hf a x, h, formOfText_attributeText hf]

lemma exists_attributeText_eq_cons (a : Attribute) :
    ∃ c r, (attributeText f a).toList = c :: r ∧ c ≠ ']' := by
  have htype (h : formOf a = 4) : ∃ c r, (attributeText f a).toList = c :: r ∧ c ≠ ']' := by
    cases a with
    | type t =>
      obtain ⟨c, r, hcr, hc, -⟩ := t.exists_text_eq_cons
      refine ⟨c, r, by rw [attributeText, hcr], ?_⟩
      rintro rfl
      simp at hc
    | _ => cases h
  have hform := formOfText_attributeText hf a []
  rw [List.append_nil] at hform
  cases htext : (attributeText f a).toList with
  | nil =>
    rw [htext] at hform
    obtain ⟨c, r, hcr, -⟩ := htype hform.symm
    rw [htext] at hcr
    cases hcr
  | cons c r =>
    refine ⟨c, r, rfl, ?_⟩
    rintro rfl
    rw [htext] at hform
    obtain ⟨d, r', hdr, hne⟩ := htype hform.symm
    rw [htext] at hdr
    exact hne (List.cons.inj hdr).1.symm

omit hf in
/-- What is written as a number with a type behind it. -/
lemma tells_typed {s t : NumberText} (hs : s.WellFormed) (ht : t.WellFormed) (u v : Ty) :
    Tells (s = t ∧ u.normal = v.normal) (s.chars ++ ' ' :: ':' :: ' ' :: u.text.toList)
      (t.chars ++ ' ' :: ':' :: ' ' :: v.text.toList) :=
  (NumberText.tells_chars hs ht).append (by decide) (by decide) (Ty.tells_text u v).cons.cons.cons

omit hf in
/-- What is written as a number with a type behind it is so written by no other attribute. -/
lemma tells_numbers (a b : Attribute) (ha : formOf a = 2) (hb : formOf b = 2) :
    Tells (a.normal = b.normal) (attributeText f a).toList (attributeText f b).toList := by
  cases a <;> cases ha <;> cases b <;> cases hb
  case integer.refl.integer.refl v t w u =>
    rw [toList_attributeText_integer, toList_attributeText_integer]
    refine ((tells_integerChars v w).append (by decide) (by decide)
      (Ty.tells_text t u).cons.cons.cons).imp ?_
    rintro ⟨rfl, htype⟩
    rw [normal, normal, htype]
  case integer.refl.float.refl v t w u =>
    rw [toList_attributeText_integer, toList_attributeText_float]
    exact (tells_typed (s := .numeral _) (Numeral.wellFormed_ofInt v.toInt)
      (NumberText.wellFormed_ofFloat w) t u).imp
      fun h => absurd h.1 (NumberText.numeral_ofInt_ne_ofFloat v w)
  case float.refl.integer.refl v t w u =>
    rw [toList_attributeText_float, toList_attributeText_integer]
    exact (tells_typed (t := .numeral _) (NumberText.wellFormed_ofFloat v)
      (Numeral.wellFormed_ofInt w.toInt) t u).imp
      fun h => absurd h.1.symm (NumberText.numeral_ofInt_ne_ofFloat w v)
  case float.refl.float.refl v t w u =>
    rw [toList_attributeText_float, toList_attributeText_float]
    refine (tells_typed (NumberText.wellFormed_ofFloat v) (NumberText.wellFormed_ofFloat w)
      t u).imp ?_
    rintro ⟨hnumber, htype⟩
    rw [normal, normal, NumberText.ofFloat_inj hnumber, htype]

/-- **An attribute can be told from its text**, up to what the text does not show, if the symbols
in it are words. -/
theorem tells_attributeText (a b : Attribute)
    (ha : ∀ name, .symbol name ∈ a.leaves → ∀ c ∈ name.toList, isWordChar c = true)
    (hb : ∀ name, .symbol name ∈ b.leaves → ∀ c ∈ name.toList, isWordChar c = true) :
    Tells (a.normal = b.normal) (attributeText f a).toList (attributeText f b).toList := by
  induction a using Attribute.nested_induction generalizing b with
  | unit =>
    intro x y _ _ heq
    cases b <;> cases formOf_eq hf heq
    exact ⟨rfl, List.append_cancel_left heq⟩
  | bool v =>
    intro x y _ _ heq
    cases b <;> cases formOf_eq hf heq
    rename_i w
    rw [attributeText, attributeText] at heq
    cases v <;> cases w
    · exact ⟨rfl, List.append_cancel_left heq⟩
    · cases (List.cons.inj heq).1
    · cases (List.cons.inj heq).1
    · exact ⟨rfl, List.append_cancel_left heq⟩
  | integer v ty =>
    intro x y hx hy heq
    exact tells_numbers _ b rfl (formOf_eq hf heq).symm x y hx hy heq
  | float v ty =>
    intro x y hx hy heq
    exact tells_numbers _ b rfl (formOf_eq hf heq).symm x y hx hy heq
  | string s =>
    intro x y hx hy heq
    cases b <;> cases formOf_eq hf heq
    rw [attributeText, attributeText] at heq
    exact (tells_quote _ _ x y hx hy heq).imp_left fun h => by rw [h]
  | type t =>
    intro x y hx hy heq
    cases b <;> cases formOf_eq hf heq
    rw [attributeText, attributeText] at heq
    exact (Ty.tells_text _ _ x y hx hy heq).imp_left fun h => by rw [normal, normal, h]
  | array items ih =>
    intro x y _ _ heq
    cases b <;> cases formOf_eq hf heq
    rename_i items'
    have hleaf {a : Attribute} {l : List Attribute} (hal : a ∈ l) {name : String}
        (h : .symbol name ∈ a.leaves) : .symbol name ∈ (array l).leaves := by
      rw [leaves]
      exact List.mem_flatMap.mpr ⟨a, hal, h⟩
    simp only [toList_attributeText_array, List.cons_append, List.append_assoc,
      List.nil_append] at heq
    obtain ⟨hitems, rfl⟩ := intercalate_append_inj (by decide) (by decide)
      (fun a hmem b hmem' => ih a hmem b (fun name h => ha name (hleaf hmem h))
        fun name h => hb name (hleaf hmem' h))
      (fun a _ => exists_attributeText_eq_cons hf a) (fun a _ => exists_attributeText_eq_cons hf a)
      (List.cons.inj heq).2
    exact ⟨by rw [normal, normal, hitems], rfl⟩
  | dense ty values =>
    intro x y hx hy heq
    cases b <;> cases formOf_eq hf heq
    rename_i ty' values'
    rw [toList_attributeText_dense hf, toList_attributeText_dense hf] at heq
    have hbody := (tells_elementsText values values').append (by decide) (by decide)
      ((Ty.tells_text ty ty').append_left ['>', ' ', ':', ' '])
    obtain ⟨⟨hvalues, htype⟩, rfl⟩ :=
      hbody.append_left ['d', 'e', 'n', 's', 'e', '<'] x y hx hy heq
    exact ⟨by rw [normal, normal, hvalues, htype], rfl⟩
  | symbol name =>
    intro x y hx hy heq
    cases b <;> cases formOf_eq hf heq
    rename_i name'
    rw [toList_attributeText_symbol, toList_attributeText_symbol] at heq
    have hword := tells_word (ha name (by simp [leaves])) (hb name' (by simp [leaves]))
    exact (hword.cons x y hx hy heq).imp_left fun h => by rw [String.toList_inj.mp h]

end

end Print

end OpTree
