import OpTree.Print.Names
import OpTree.Proofs.AttributeText

/-!
Clean programs: those in which every value is defined once and of which the text form hides
nothing but the ids of values.
-/

namespace OpTree

open OpTree.IR OpTree.Number OpTree.Print OpTree.Text

def IsWord (s : String) : Prop := s.toList ≠ [] ∧ ∀ c ∈ s.toList, isWordChar c = true

namespace IR

/-! ### Types -/

namespace Ty

def dimensions : Ty → List Int64
  | tensor shape element => shape ++ element.dimensions
  | function inputs results => inputs.flatMap dimensions ++ results.flatMap dimensions
  | _ => []

/-- Unknown extents are all given by `-1`. -/
def Plain (t : Ty) : Prop := ∀ d ∈ t.dimensions, -1 ≤ d

lemma plain_tensor {shape : List Int64} {element : Ty} :
    (tensor shape element).Plain ↔ (∀ d ∈ shape, -1 ≤ d) ∧ element.Plain := by
  simp only [Plain, dimensions, List.mem_append, or_imp, forall_and]

lemma plain_function {inputs results : List Ty} :
    (function inputs results).Plain ↔ (∀ t ∈ inputs, t.Plain) ∧ ∀ t ∈ results, t.Plain := by
  simp only [Plain, dimensions, List.mem_append, List.mem_flatMap, or_imp, forall_and,
    forall_exists_index, and_imp]
  exact and_congr ⟨fun h t ht d hd => h d t ht hd, fun h d t ht hd => h t ht d hd⟩
    ⟨fun h t ht d hd => h d t ht hd, fun h d t ht hd => h t ht d hd⟩

lemma normalDimension_of_le {d : Int64} (hd : -1 ≤ d) : normalDimension d = d := by
  unfold normalDimension
  split
  · rename_i hneg
    rw [int64_neg_iff] at hneg
    rw [Int64.le_iff_toInt_le] at hd
    have hone : (-1 : Int64).toInt = -1 := rfl
    exact Int64.toInt_inj.mp (by omega)
  · rfl

lemma Plain.normal_eq {t : Ty} (ht : t.Plain) : t.normal = t := by
  induction t using Ty.nested_induction with
  | integer | index | f32 | f64 | none => rw [normal]; all_goals simp
  | tensor shape element ih =>
    obtain ⟨hdims, helement⟩ := plain_tensor.mp ht
    have hshape : shape.map normalDimension = shape :=
      (List.map_congr_left fun d hd => normalDimension_of_le (hdims d hd)).trans (List.map_id shape)
    rw [normal, hshape, ih helement]
  | function inputs results ihInputs ihResults =>
    obtain ⟨hplain, hplain'⟩ := plain_function.mp ht
    have hinputs : inputs.map normal = inputs :=
      (List.map_congr_left fun t h => ihInputs t h (hplain t h)).trans (List.map_id inputs)
    have hresults : results.map normal = results :=
      (List.map_congr_left fun t h => ihResults t h (hplain' t h)).trans (List.map_id results)
    rw [normal, hinputs, hresults]

lemma Plain.eq_of_normal {t u : Ty} (ht : t.Plain) (hu : u.Plain) (h : t.normal = u.normal) :
    t = u := by
  rw [← ht.normal_eq, h, hu.normal_eq]

end Ty

/-! ### Attributes -/

namespace Attribute

/-- The text of an attribute that is no array hides nothing: it has no number that is none, its
name is a word, and its elements are as many as its shape says. -/
def Plain : Attribute → Prop
  | integer _ ty => ty.Plain
  | float v ty => v.isNaN = false ∧ ty.Plain
  | type ty => ty.Plain
  | dense ty values => ty.Plain ∧ ∃ shape element, ty = .tensor shape element ∧
      (∀ d ∈ shape, 0 ≤ d) ∧ (shape.map Int64.toInt).prod = values.length
  | symbol name => IsWord name
  | _ => True

lemma length_eq_of_dense {ty : Ty} {values values' : List Int64} (h : (dense ty values).Plain)
    (h' : (dense ty values').Plain) : values.length = values'.length := by
  obtain ⟨-, shape, element, rfl, -, hprod⟩ := h
  obtain ⟨-, shape', element', htype, -, hprod'⟩ := h'
  obtain ⟨rfl, -⟩ := Ty.tensor.inj htype
  omega

/-- Elements that are all the same are as many as there were. -/
def restore (n : ℕ) : List Int64 → List Int64
  | [v] => List.replicate n v
  | vs => vs

lemma restore_normalElements (values : List Int64) :
    restore values.length (normalElements values) = values := by
  cases values with
  | nil => rfl
  | cons v vs =>
    rw [normalElements]
    by_cases hall : vs.all (· == v) = true
    · have hvs : vs = List.replicate vs.length v :=
        List.eq_replicate_of_mem fun w hw => by simpa using List.all_eq_true.mp hall w hw
      rw [if_pos hall, restore, List.length_cons, List.replicate_succ, ← hvs]
    · rw [if_neg hall]
      cases vs with
      | nil => exact absurd rfl hall
      | cons w vs => rfl

lemma eq_of_normalElements {values values' : List Int64} (hlength : values.length = values'.length)
    (h : normalElements values = normalElements values') : values = values' := by
  rw [← restore_normalElements values, h, hlength, restore_normalElements]

/-- Attributes of which the texts hide nothing are the same if they are so up to what is hidden. -/
theorem eq_of_normal {a b : Attribute} (ha : ∀ l ∈ a.leaves, l.Plain) (hb : ∀ l ∈ b.leaves, l.Plain)
    (h : a.normal = b.normal) : a = b := by
  induction a using Attribute.nested_induction generalizing b with
  | unit =>
    cases b <;> simp only [normal, reduceCtorEq] at h
    rfl
  | bool | string | symbol =>
    cases b <;> simp only [normal, reduceCtorEq] at h
    exact h
  | integer v t =>
    cases b <;> simp only [normal, reduceCtorEq, integer.injEq] at h
    rename_i w u
    simp only [leaves, List.mem_singleton, forall_eq] at ha hb
    have htype : t = u := Ty.Plain.eq_of_normal ha hb h.2
    rw [h.1, htype]
  | float v t =>
    cases b <;> simp only [normal, reduceCtorEq, float.injEq] at h
    rename_i w u
    simp only [leaves, List.mem_singleton, forall_eq] at ha hb
    have hnumber := h.1
    rw [Binary64.canonical_of_not_isNaN ha.1, Binary64.canonical_of_not_isNaN hb.1] at hnumber
    have htype : t = u := Ty.Plain.eq_of_normal ha.2 hb.2 h.2
    rw [hnumber, htype]
  | type t =>
    cases b <;> simp only [normal, reduceCtorEq, type.injEq] at h
    simp only [leaves, List.mem_singleton, forall_eq] at ha hb
    rw [Ty.Plain.eq_of_normal ha hb h]
  | array items ih =>
    cases b <;> simp only [normal, reduceCtorEq, array.injEq] at h
    rename_i items'
    simp only [leaves, List.mem_flatMap, forall_exists_index, and_imp] at ha hb
    have hitems : items.map id = items'.map id := map_eq_of_map_eq (fun a hmem b hmem' =>
      ih a hmem (fun l hl => ha l a hmem hl) fun l hl => hb l b hmem' hl) h
    rw [← List.map_id items, hitems, List.map_id]
  | dense t values =>
    cases b <;> simp only [normal, reduceCtorEq, dense.injEq] at h
    simp only [leaves, List.mem_singleton, forall_eq] at ha hb
    obtain rfl := Ty.Plain.eq_of_normal ha.1 hb.1 h.1
    rw [eq_of_normalElements (length_eq_of_dense ha hb) h.2]

end Attribute

/-! ### Locations -/

namespace Location

def names : Location → List String
  | unknown => []
  | fileLineCol file _ _ => [file]
  | name n => [n]
  | fused parts => parts.flatMap names

end Location

/-! ### Programs -/

namespace Operation

/-- The text of an operation hides nothing of what the operation itself consists of. -/
structure Plain (op : Operation) : Prop where
  keys : ∀ e ∈ op.attributes.entries, IsWord e.1
  attributes : ∀ e ∈ op.attributes.entries, ∀ a ∈ e.2.leaves, a.Plain
  operands : ∀ v ∈ op.operands, v.ty.Plain
  results : ∀ v ∈ op.results, v.ty.Plain
  arguments : ∀ r ∈ op.regions, ∀ b ∈ r.blocks, ∀ v ∈ b.arguments, v.ty.Plain
  blocks : ∀ r ∈ op.regions, r.blocks ≠ []
  location : ∀ s ∈ op.location.names, '"' ∉ s.toList ∧ '\n' ∉ s.toList

/-- Every value is defined once, what is used is defined, and all operations are plain. -/
structure Clean (root : Operation) : Prop where
  nodup : ((definitions root).map Definition.id).Nodup
  defined : ∀ op ∈ root.walk, ∀ v ∈ op.operands, v.id ∈ (definitions root).map Definition.id
  plain : ∀ op ∈ root.walk, op.Plain

end Operation

end IR

end OpTree
