import OpTree.Proofs.AttributeText

/-!
What the texts of types and attributes hide, and that they hide nothing else. Negative dimensions
are all written alike, and so are elements that are all the same, however many there are, and what
is no number. Up to this, texts are equal exactly if what they stand for is.
-/

namespace OpTree

open OpTree.Number OpTree.IR OpTree.Text

/-! ### Types -/

namespace IR.Ty

lemma dimensionText_normalDimension (d : Int64) :
    dimensionText (normalDimension d) = dimensionText d := by
  unfold normalDimension
  split
  · rename_i hd
    rw [dimensionText, dimensionText, if_pos hd, if_pos (by decide)]
  · rfl

lemma isFunction_normal (t : Ty) : t.normal.isFunction = t.isFunction := by
  cases t <;> rw [normal] <;> first | rfl | simp

lemma resultsText_normal (results : List Ty) (texts : List String) :
    resultsText (results.map normal) texts = resultsText results texts := by
  simp only [resultsText, List.length_map, List.any_map, Function.comp_def, isFunction_normal]

/-- The text shows nothing of a type but its normal form. -/
theorem text_normal (t : Ty) : t.normal.text = t.text := by
  have hlist {ts : List Ty} (h : ∀ t ∈ ts, t.normal.text = t.text) :
      (ts.map normal).map text = ts.map text := by
    rw [List.map_map]
    exact List.map_congr_left h
  induction t using Ty.nested_induction with
  | integer | index | f32 | f64 | none => rw [normal]; all_goals simp
  | tensor shape element ih =>
    have hshape : (shape.map normalDimension).map dimensionText = shape.map dimensionText := by
      rw [List.map_map]
      exact List.map_congr_left fun d _ => dimensionText_normalDimension d
    rw [normal, text, text, hshape, ih]
  | function inputs results ihInputs ihResults =>
    rw [normal, text, text, hlist ihInputs, hlist ihResults, resultsText_normal]

lemma normal_eq_of_text_eq {t u : Ty} (h : t.text = u.text) : t.normal = u.normal :=
  (tells_text t u).of_eq (congrArg String.toList h)

lemma text_eq_of_normal_eq {t u : Ty} (h : t.normal = u.normal) : t.text = u.text := by
  rw [← text_normal t, h, text_normal]

end IR.Ty

/-- **Types are written alike exactly if they differ at most in negative dimensions**, and so are
the signatures of operations whose operands and results are of such types. -/
theorem typeTexts_unambiguous :
    (∀ t u : Ty, t.text = u.text ↔ t.normal = u.normal) ∧
      ∀ a b : Operation, (Print.signature a).text = (Print.signature b).text ↔
        a.operands.map (·.ty.normal) = b.operands.map (·.ty.normal) ∧
          a.results.map (·.ty.normal) = b.results.map (·.ty.normal) := by
  have htypes (t u : Ty) : t.text = u.text ↔ t.normal = u.normal :=
    ⟨Ty.normal_eq_of_text_eq, Ty.text_eq_of_normal_eq⟩
  have hsignature (op : Operation) : (Print.signature op).normal =
      .function (op.operands.map (·.ty.normal)) (op.results.map (·.ty.normal)) := by
    rw [Print.signature, Ty.normal, List.map_map, List.map_map]
    rfl
  refine ⟨htypes, fun a b => ?_⟩
  rw [htypes, hsignature, hsignature, Ty.function.injEq]

/-! ### Attributes -/

namespace IR.Attribute

/-- The kind of an attribute. That of an array tells how many items there are and the kind of each,
so it tells how arrays are nested. -/
inductive Kind
  | unit
  | bool
  | integer
  | float
  | string
  | type
  | array (items : List Kind)
  | dense
  | symbol

def kind : Attribute → Kind
  | unit => .unit
  | bool _ => .bool
  | integer .. => .integer
  | float .. => .float
  | string _ => .string
  | type _ => .type
  | array items => .array (items.map kind)
  | dense .. => .dense
  | symbol _ => .symbol

lemma kind_normal (a : Attribute) : a.normal.kind = a.kind := by
  induction a using Attribute.nested_induction with
  | array items ih =>
    rw [normal, kind, kind, List.map_map]
    exact congrArg Kind.array (List.map_congr_left ih)
  | _ => rw [normal]; all_goals simp [kind]

end IR.Attribute

namespace Print

open IR.Attribute

lemma text_canonical (x : Binary64) : floatLayout.text x.canonical = floatLayout.text x := by
  unfold Binary64.canonical
  split
  · rename_i hnan
    rw [Layout.text, Layout.text, if_pos hnan, if_pos (by decide)]
  · rfl

lemma elementsText_normalElements (values : List Int64) :
    elementsText (normalElements values) = elementsText values := by
  cases values with
  | nil => rfl
  | cons v vs =>
    rw [normalElements]
    split
    · rename_i hall
      simp [elementsText, hall]
    · rfl

section

variable {f : Flags} (hf : f.elideAbove = none)

include hf

lemma denseText_normal (ty : Ty) (values : List Int64) :
    denseText f ty.normal (normalElements values) = denseText f ty values := by
  have helides (n : ℕ) : f.elides n = false := by simp [Flags.elides, hf]
  rw [denseText, denseText, helides, helides, elementsText_normalElements, Ty.text_normal]

/-- The text shows nothing of an attribute but its normal form. -/
theorem attributeText_normal (a : Attribute) : attributeText f a.normal = attributeText f a := by
  induction a using Attribute.nested_induction with
  | unit | bool | string | symbol => rw [normal]; all_goals simp
  | integer v t => rw [normal, attributeText, attributeText, Ty.text_normal]
  | float v t => rw [normal, attributeText, attributeText, text_canonical, Ty.text_normal]
  | type t => rw [normal, attributeText, attributeText, Ty.text_normal]
  | array items ih =>
    rw [normal, attributeText, attributeText, List.map_map]
    exact congrArg (fun l => "[" ++ Ty.commaList l ++ "]") (List.map_congr_left ih)
  | dense t values => rw [normal, attributeText, attributeText, denseText_normal hf]

/-- **Attributes are written alike exactly if they differ at most in what their texts hide**: in
negative dimensions, in how many elements there are that are all the same, and in the bits of what
is no number. So what is written alike is of one kind, and arrays are of one length and nesting. -/
theorem attributeText_eq_iff {a b : Attribute}
    (ha : ∀ name, .symbol name ∈ a.leaves → ∀ c ∈ name.toList, isWordChar c = true)
    (hb : ∀ name, .symbol name ∈ b.leaves → ∀ c ∈ name.toList, isWordChar c = true) :
    (attributeText f a = attributeText f b ↔ a.normal = b.normal) ∧
      (attributeText f a = attributeText f b → a.kind = b.kind) := by
  have htold (h : attributeText f a = attributeText f b) : a.normal = b.normal :=
    (tells_attributeText hf a b ha hb).of_eq (congrArg String.toList h)
  refine ⟨⟨htold, fun h => ?_⟩, fun h => ?_⟩
  · rw [← attributeText_normal hf a, h, attributeText_normal hf]
  · rw [← kind_normal a, htold h, kind_normal]

end

/-- An attribute with a dimension, the word of a number, and some copies of an element. -/
def veiled (dimension : Int64) (word : UInt64) (copies : ℕ) : Attribute :=
  .array [.float ⟨word⟩ (.tensor [dimension, 2] .f32),
    .dense (.tensor [dimension] .index) (List.replicate copies 7), .symbol "a.b"]

/-- Another negative dimension, another word that is no number and another number of copies are not
seen, but the first copy is. -/
theorem attributeText_eq_iff_veiled :
    let a := veiled (-5) 0x7ff8000000000001 3
    let b := veiled (-1) 0xfff8000000000000 1
    let c := veiled (-1) 0xfff8000000000000 0
    let IsTame (a : Attribute) := ∀ name, .symbol name ∈ a.leaves →
      ∀ c ∈ name.toList, isWordChar c = true
    ({} : Flags).elideAbove = none ∧ IsTame a ∧ IsTame b ∧ IsTame c ∧
      attributeText {} a = attributeText {} b ∧ attributeText {} b ≠ attributeText {} c := by
  intro a b c IsTame
  have htame (dimension : Int64) (word : UInt64) (copies : ℕ) :
      IsTame (veiled dimension word copies) := by
    intro name hname
    have hword : ∀ c ∈ "a.b".toList, isWordChar c = true :=
      List.all_eq_true.mp (by decide)
    simp only [veiled, leaves, List.flatMap_cons, List.flatMap_nil, List.append_nil,
      List.mem_append, List.mem_singleton, reduceCtorEq, Attribute.symbol.injEq,
      false_or] at hname
    rwa [hname]
  have hword : (⟨0x7ff8000000000001⟩ : Binary64).canonical =
      (⟨0xfff8000000000000⟩ : Binary64).canonical := by decide
  have hdimension : Ty.normalDimension (-5) = Ty.normalDimension (-1) := by decide
  have hcopies : normalElements [7, 7, 7] = normalElements [7] := by decide
  have hnone : normalElements [7] ≠ normalElements [] := by decide
  have hsame : a.normal = b.normal := by
    simp [a, b, veiled, normal, Ty.normal, hword, hdimension, hcopies, List.replicate_succ]
  have hother : b.normal ≠ c.normal := by
    simp [b, c, veiled, normal, hnone]
  refine ⟨rfl, htame _ _ _, htame _ _ _, htame _ _ _, ?_, fun h => hother ?_⟩
  · exact (attributeText_eq_iff (f := {}) rfl (htame _ _ _) (htame _ _ _)).1.mpr hsame
  · exact (attributeText_eq_iff (f := {}) rfl (htame _ _ _) (htame _ _ _)).1.mp h

end Print

end OpTree
