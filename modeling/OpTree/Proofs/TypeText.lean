import OpTree.Proofs.Legible
import OpTree.Proofs.Parts

/-!
Types can be told from their texts, up to negative dimensions, which are all written alike.
-/

namespace OpTree.IR

open OpTree.Text

namespace Ty

lemma toList_commaList (l : List String) :
    (commaList l).toList = [',', ' '].intercalate (l.map String.toList) := by
  rw [commaList, String.toList_intercalate]
  rfl

/-- The dimension that stands for all that are written like this one. -/
def normalDimension (d : Int64) : Int64 := if d < 0 then -1 else d

/-- The type with every negative dimension replaced by `-1`. -/
def normal : Ty → Ty
  | tensor shape element => .tensor (shape.map normalDimension) element.normal
  | function inputs results => .function (inputs.map normal) (results.map normal)
  | t => t

/-! ### Texts by the form of the type -/

lemma toList_text_integer (w : UInt32) :
    (integer w).text.toList = 'i' :: Nat.toDigits 10 w.toNat := by
  rw [text, String.toList_append, toList_toString_nat]
  rfl

lemma toList_text_tensor (shape : List Int64) (element : Ty) :
    (tensor shape element).text.toList = ['t', 'e', 'n', 's', 'o', 'r', '<'] ++
      (shape.flatMap (fun d => (dimensionText d).toList) ++ (element.text.toList ++ ['>'])) := by
  rw [text, String.toList_append, String.toList_append, String.toList_append, String.toList_join,
    List.flatMap_map, List.append_assoc, List.append_assoc]
  rfl

lemma toList_text_function (inputs results : List Ty) :
    (function inputs results).text.toList =
      '(' :: ([',', ' '].intercalate (inputs.map fun t => t.text.toList) ++
        ')' :: ' ' :: '-' :: '>' :: ' ' :: (resultsText results (results.map text)).toList) := by
  rw [text, String.toList_append, String.toList_append, String.toList_append, toList_commaList,
    List.map_map, List.append_assoc, List.append_assoc]
  rfl

lemma toList_text_index : index.text.toList = ['i', 'n', 'd', 'e', 'x'] := by rw [text]; rfl
lemma toList_text_f32 : f32.text.toList = ['f', '3', '2'] := by rw [text]; rfl
lemma toList_text_f64 : f64.text.toList = ['f', '6', '4'] := by rw [text]; rfl
lemma toList_text_none : none.text.toList = ['n', 'o', 'n', 'e'] := by rw [text]; rfl

lemma toList_resultsText (results : List Ty) :
    (∃ t, results = [t] ∧ t.isFunction = false ∧
      (resultsText results (results.map text)).toList = t.text.toList) ∨
    (resultsText results (results.map text)).toList =
      '(' :: ([',', ' '].intercalate (results.map fun t => t.text.toList) ++ [')']) := by
  unfold resultsText
  split
  · rename_i h
    obtain ⟨hlength, hfunction⟩ := h
    obtain ⟨t, rfl⟩ := List.length_eq_one_iff.mp hlength
    refine .inl ⟨t, rfl, by simpa using hfunction, ?_⟩
    rw [toList_commaList, List.map_singleton, List.map_singleton, List.intercalate_singleton]
  · rw [String.toList_append, String.toList_append, toList_commaList, List.map_map]
    exact .inr rfl

lemma exists_text_eq_cons (t : Ty) :
    ∃ c r, t.text.toList = c :: r ∧ c ∈ ['i', 'f', 'n', 't', '('] ∧
      (t.isFunction = false → c ≠ '(') := by
  cases t with
  | integer w => exact ⟨_, _, toList_text_integer w, by simp, by simp⟩
  | index => exact ⟨_, _, toList_text_index, by simp, by simp⟩
  | f32 => exact ⟨_, _, toList_text_f32, by simp, by simp⟩
  | f64 => exact ⟨_, _, toList_text_f64, by simp, by simp⟩
  | none => exact ⟨_, _, toList_text_none, by simp, by simp⟩
  | tensor shape element => exact ⟨_, _, toList_text_tensor shape element, by simp, by simp⟩
  | function inputs results =>
    exact ⟨_, _, toList_text_function inputs results, by simp, by simp [isFunction]⟩

lemma exists_text_ne_paren (t : Ty) : ∃ c r, t.text.toList = c :: r ∧ c ≠ ')' := by
  obtain ⟨c, r, hcr, hc, -⟩ := t.exists_text_eq_cons
  refine ⟨c, r, hcr, ?_⟩
  rintro rfl
  simp at hc

/-! ### Dimensions -/

lemma int64_neg_iff (d : Int64) : d < 0 ↔ d.toInt < 0 := by
  rw [Int64.lt_iff_toInt_lt, Int64.toInt_zero]

lemma toList_dimensionText (d : Int64) : (dimensionText d).toList =
    (if d < 0 then ['?'] else Nat.toDigits 10 d.toInt.natAbs) ++ ['x'] := by
  unfold dimensionText
  rw [String.toList_append]
  split
  · rfl
  · rename_i hd
    rw [int64_neg_iff] at hd
    rw [toList_toString_int, if_neg hd]
    rfl

/-- A character that a dimension begins with. -/
def isDimensionStart (c : Char) : Bool := c.isDigit || c == '?'

lemma exists_dimensionText_eq_cons (d : Int64) :
    ∃ c r, (dimensionText d).toList = c :: r ∧ isDimensionStart c = true ∧ (c = '?' ↔ d < 0) := by
  rw [toList_dimensionText]
  split
  · exact ⟨'?', _, rfl, by decide, by simpa⟩
  · obtain ⟨c, r, hcr⟩ := List.exists_cons_of_ne_nil
      (Nat.toDigits_ne_nil (b := 10) (n := d.toInt.natAbs))
    have hc : c.isDigit = true :=
      isDigit_of_mem_toDigits (n := d.toInt.natAbs) c (by simp [hcr])
    refine ⟨c, r ++ ['x'], by rw [hcr]; rfl, by simp [isDimensionStart, hc], ?_⟩
    constructor
    · rintro rfl
      exact absurd hc (by decide)
    · intro hd
      contradiction

lemma dimensionText_append_inj {d e : Int64} {x y : List Char}
    (h : (dimensionText d).toList ++ x = (dimensionText e).toList ++ y) :
    normalDimension d = normalDimension e ∧ x = y := by
  obtain ⟨c, r, hc, -, hneg⟩ := exists_dimensionText_eq_cons d
  obtain ⟨c', r', hc', -, hneg'⟩ := exists_dimensionText_eq_cons e
  have hsign : d < 0 ↔ e < 0 := by
    rw [hc, hc'] at h
    rw [← hneg, ← hneg', (List.cons.inj h).1]
  rw [toList_dimensionText, toList_dimensionText] at h
  unfold normalDimension
  by_cases hd : d < 0
  · have he := hsign.mp hd
    rw [if_pos hd, if_pos he] at h ⊢
    exact ⟨rfl, List.append_cancel_left h⟩
  · have he : ¬ e < 0 := fun h => hd (hsign.mpr h)
    rw [if_neg hd, if_neg he] at h ⊢
    rw [List.append_assoc, List.append_assoc] at h
    have hcross (z : List Char) : ∀ c ∈ (['x'] ++ z).head?, c.isDigit = false := by
      intro c hc
      obtain rfl : 'x' = c := by simpa using hc
      decide
    obtain ⟨habs, hrest⟩ := toDigits_append_inj (hcross x) (hcross y) h
    rw [int64_neg_iff] at hd he
    exact ⟨Int64.toInt_inj.mp (by omega), List.append_cancel_left hrest⟩

lemma dimensions_append_inj {shape shape' : List Int64} {x y : List Char}
    (hx : ∀ c ∈ x.head?, isDimensionStart c = false)
    (hy : ∀ c ∈ y.head?, isDimensionStart c = false)
    (h : shape.flatMap (fun d => (dimensionText d).toList) ++ x =
      shape'.flatMap (fun d => (dimensionText d).toList) ++ y) :
    shape.map normalDimension = shape'.map normalDimension ∧ x = y := by
  have hend {x : List Char} (hx : ∀ c ∈ x.head?, isDimensionStart c = false) :
      ¬(∃ c ∈ x.head?, isDimensionStart c = true) ∧ True :=
    ⟨fun ⟨c, hc, hstart⟩ => absurd hstart (by simp [hx c hc]), trivial⟩
  have hstart (d : Int64) (z : List Char) :
      ∃ c ∈ ((dimensionText d).toList ++ z).head?, isDimensionStart c = true := by
    obtain ⟨c, r, hcr, hc, -⟩ := exists_dimensionText_eq_cons d
    exact ⟨c, by simp [hcr], hc⟩
  exact flatMap_append_inj (p := fun z => ∃ c ∈ z.head?, isDimensionStart c = true)
    (fun _ _ => trivial) (hend hx) (hend hy) (fun d _ => hstart d)
    (fun d _ => hstart d) (fun d _ e _ x y _ _ h => dimensionText_append_inj h) h

/-! ### Types -/

/-- The position of the form of a type, as told by the first two characters of its text. -/
def formOfText : List Char → ℕ
  | 'i' :: 'n' :: _ => 1
  | 'i' :: _ => 0
  | 'f' :: '3' :: _ => 2
  | 'f' :: _ => 3
  | 'n' :: _ => 4
  | 't' :: _ => 5
  | _ => 6

lemma formOfText_text (t : Ty) (x : List Char) : formOfText (t.text.toList ++ x) = t.ctorIdx := by
  cases t with
  | integer w =>
    obtain ⟨c, r, hcr⟩ := List.exists_cons_of_ne_nil
      (Nat.toDigits_ne_nil (b := 10) (n := w.toNat))
    have hc : c.isDigit = true := isDigit_of_mem_toDigits (n := w.toNat) c (by simp [hcr])
    rw [toList_text_integer, hcr, List.cons_append, List.cons_append, formOfText]
    · rfl
    · intro r' heq
      rw [(List.cons.inj heq).1] at hc
      exact absurd hc (by decide)
  | index => rw [toList_text_index]; rfl
  | f32 => rw [toList_text_f32]; rfl
  | f64 => rw [toList_text_f64]; rfl
  | none => rw [toList_text_none]; rfl
  | tensor shape element => rw [toList_text_tensor]; rfl
  | function inputs results => rw [toList_text_function]; rfl

lemma ctorIdx_eq {t u : Ty} {x y : List Char} (h : t.text.toList ++ x = u.text.toList ++ y) :
    t.ctorIdx = u.ctorIdx := by
  rw [← formOfText_text t x, h, formOfText_text]

/-- **A type can be told from its text**, up to negative dimensions. -/
theorem tells_text (t u : Ty) : Tells (t.normal = u.normal) t.text.toList u.text.toList := by
  induction t using Ty.nested_induction generalizing u with
  | integer w =>
    intro x y hx hy heq
    cases u <;> cases ctorIdx_eq heq
    rename_i w'
    rw [toList_text_integer, toList_text_integer] at heq
    obtain ⟨hw, rfl⟩ := (tells_toDigits _ _).cons x y hx hy heq
    rw [UInt32.toNat_inj] at hw
    exact ⟨congrArg _ (congrArg _ hw), rfl⟩
  | index | f32 | f64 | none =>
    intro x y _ _ heq
    cases u <;> cases ctorIdx_eq heq
    exact ⟨rfl, List.append_cancel_left heq⟩
  | tensor shape element ih =>
    intro x y hx hy heq
    cases u <;> cases ctorIdx_eq heq
    rename_i shape' element'
    have hstart (t : Ty) (z : List Char) :
        ∀ c ∈ (t.text.toList ++ z).head?, isDimensionStart c = false := by
      obtain ⟨c, r, hcr, hc, -⟩ := t.exists_text_eq_cons
      intro d hd
      obtain rfl : c = d := by simpa [hcr] using hd
      have hall : ∀ c ∈ ['i', 'f', 'n', 't', '('], isDimensionStart c = false :=
        List.all_iff_forall_prop.mp (by decide)
      exact hall c hc
    simp only [toList_text_tensor, List.append_assoc] at heq
    have hbody := List.append_cancel_left heq
    obtain ⟨hshape, hrest⟩ := dimensions_append_inj (hstart _ _) (hstart _ _) hbody
    obtain ⟨helement, hxy⟩ := ih element' _ _ (stops_cons (by decide) x)
      (stops_cons (by decide) y) hrest
    exact ⟨by rw [normal, normal, hshape, helement], (List.cons.inj hxy).2⟩
  | function inputs results ihInputs ihResults =>
    intro x y hx hy heq
    cases u <;> cases ctorIdx_eq heq
    rename_i inputs' results'
    simp only [toList_text_function, List.cons_append, List.append_assoc] at heq
    obtain ⟨hinputs, hrest⟩ := intercalate_append_inj (by decide) (by decide)
      (fun t ht u _ => ihInputs t ht u) (fun t _ => exists_text_ne_paren t)
      (fun t _ => exists_text_ne_paren t) (List.cons.inj heq).2
    simp only [List.cons.injEq, true_and] at hrest
    have hresults : results.map normal = results'.map normal ∧ x = y := by
      rcases toList_resultsText results with ⟨t, rfl, ht, htext⟩ | htext <;>
        rcases toList_resultsText results' with ⟨u, rfl, hu, hutext⟩ | hutext <;>
        rw [htext, hutext] at hrest
      · obtain ⟨htu, rfl⟩ := ihResults t (by simp) u x y hx hy hrest
        exact ⟨by simp [htu], rfl⟩
      · obtain ⟨c, r, hcr, -, hne⟩ := t.exists_text_eq_cons
        rw [hcr] at hrest
        exact absurd (List.cons.inj hrest).1 (hne ht)
      · obtain ⟨c, r, hcr, -, hne⟩ := u.exists_text_eq_cons
        rw [hcr] at hrest
        exact absurd (List.cons.inj hrest).1.symm (hne hu)
      · simp only [List.cons_append, List.append_assoc, List.cons.injEq, true_and,
          List.nil_append] at hrest
        exact intercalate_append_inj (by decide) (by decide) (fun t ht u _ => ihResults t ht u)
          (fun t _ => exists_text_ne_paren t) (fun t _ => exists_text_ne_paren t) hrest
    exact ⟨by rw [normal, normal, hinputs, hresults.1], hresults.2⟩

end Ty

end OpTree.IR
