import OpTree.Proofs.AttributeText
import OpTree.Proofs.Layout
import OpTree.Proofs.Unprinted

/-!
Dense attributes with more elements than a limit are printed without them. With a limit and without
one, a program is printed alike up to the first such attribute, and there the two texts part ways;
so they are the same exactly if there is none. With the limit nothing at all of the elements of such
an attribute shows.
-/

namespace OpTree

open OpTree.IR

/-! ### Texts that part ways -/

namespace Text

/-- Behind a common beginning the texts go on with different characters. -/
def PartWays (s t : String) : Prop :=
  ∃ p c d x y, c ≠ d ∧ s.toList = p ++ c :: x ∧ t.toList = p ++ d :: y

lemma PartWays.ne {s t : String} (h : PartWays s t) : s ≠ t := by
  rintro rfl
  obtain ⟨p, c, d, x, y, hne, hs, ht⟩ := h
  exact hne (List.cons.inj (List.append_cancel_left (hs.symm.trans ht))).1

lemma PartWays.append {s t : String} (h : PartWays s t) (s' t' : String) :
    PartWays (s ++ s') (t ++ t') := by
  obtain ⟨p, c, d, x, y, hne, hs, ht⟩ := h
  refine ⟨p, c, d, x ++ s'.toList, y ++ t'.toList, hne, ?_, ?_⟩
  · rw [String.toList_append, hs, List.append_assoc, List.cons_append]
  · rw [String.toList_append, ht, List.append_assoc, List.cons_append]

lemma PartWays.append_left {s t : String} (h : PartWays s t) (r : String) :
    PartWays (r ++ s) (r ++ t) := by
  obtain ⟨p, c, d, x, y, hne, hs, ht⟩ := h
  refine ⟨r.toList ++ p, c, d, x, y, hne, ?_, ?_⟩
  · rw [String.toList_append, hs, List.append_assoc]
  · rw [String.toList_append, ht, List.append_assoc]

/-- The texts part ways if `q`, and otherwise are the same. -/
structure PartIf (q : Prop) (s t : String) : Prop where
  same : ¬ q → s = t
  partWays : q → PartWays s t

namespace PartIf

variable {q q' : Prop} {s s' t t' : String}

lemma refl (s : String) : PartIf False s s := ⟨fun _ => rfl, False.elim⟩

lemma congr (h : PartIf q s t) (hq : q ↔ q') : PartIf q' s t :=
  ⟨fun hn => h.same fun hq' => hn (hq.mp hq'), fun hq' => h.partWays (hq.mpr hq')⟩

lemma eq_iff (h : PartIf q s t) : s = t ↔ ¬ q :=
  ⟨fun heq hq => (h.partWays hq).ne heq, h.same⟩

lemma append (h : PartIf q s t) (h' : PartIf q' s' t') : PartIf (q ∨ q') (s ++ s') (t ++ t') where
  same hn := by rw [h.same fun hq => hn (.inl hq), h'.same fun hq => hn (.inr hq)]
  partWays hq := by
    -- If the first two part ways, it does not matter whether the others do.
    by_cases hfirst : q
    · exact (h.partWays hfirst).append s' t'
    · rw [h.same hfirst]
      exact (h'.partWays (hq.resolve_left hfirst)).append_left t

lemma prepend (h : PartIf q s t) (r : String) : PartIf q (r ++ s) (r ++ t) :=
  ((refl r).append h).congr (iff_of_eq (false_or q))

lemma extend (h : PartIf q s t) (r : String) : PartIf q (s ++ r) (t ++ r) :=
  (h.append (refl r)).congr (iff_of_eq (or_false q))

variable {α : Type} {l : List α} {p : α → Prop} {g g' : α → String}

lemma join (h : ∀ a ∈ l, PartIf (p a) (g a) (g' a)) :
    PartIf (∃ a ∈ l, p a) (String.join (l.map g)) (String.join (l.map g')) := by
  induction l with
  | nil => exact (refl "").congr (by simp)
  | cons a l ih =>
    rw [List.map_cons, List.map_cons, String.join_cons, String.join_cons]
    refine ((h a (.head _)).append (ih fun b hb => h b (.tail _ hb))).congr ?_
    simp only [List.mem_cons, exists_eq_or_imp]

lemma commaList (h : ∀ a ∈ l, PartIf (p a) (g a) (g' a)) :
    PartIf (∃ a ∈ l, p a) (Ty.commaList (l.map g)) (Ty.commaList (l.map g')) := by
  have hcons (s : String) (r : List String) :
      Ty.commaList (s :: r) = s ++ String.join (r.map (", " ++ ·)) := by
    rw [← String.toList_inj, Ty.toList_commaList, List.map_cons, intercalate_cons,
      String.toList_append, String.toList_join, List.flatMap_map, List.flatMap_map]
    simp only [String.toList_append]
    rfl
  cases l with
  | nil => exact (refl "").congr (by simp)
  | cons a l =>
    rw [List.map_cons, List.map_cons, hcons, hcons, List.map_map, List.map_map]
    refine ((h a (.head _)).append (join fun b hb => (h b (.tail _ hb)).prepend ", ")).congr ?_
    simp only [List.mem_cons, exists_eq_or_imp]

end PartIf

end Text

/-! ### Large attributes -/

namespace IR

/-- A dense attribute in this one, at any depth, has more elements than the limit. -/
def Attribute.HoldsLarge (limit : ℕ) (a : Attribute) : Prop :=
  ∃ ty values, .dense ty values ∈ a.leaves ∧ limit < values.length

/-- A dense attribute of the operation itself has more elements than the limit. -/
def Operation.HoldsLarge (limit : ℕ) (op : Operation) : Prop :=
  ∃ e ∈ op.attributes.entries, e.2.HoldsLarge limit

lemma Attribute.holdsLarge_array {limit : ℕ} {items : List Attribute} :
    (array items).HoldsLarge limit ↔ ∃ a ∈ items, a.HoldsLarge limit := by
  simp only [HoldsLarge, leaves, List.mem_flatMap]
  constructor
  · rintro ⟨ty, values, ⟨a, ha, hleaf⟩, hlarge⟩
    exact ⟨a, ha, ty, values, hleaf, hlarge⟩
  · rintro ⟨a, ha, ty, values, hleaf, hlarge⟩
    exact ⟨ty, values, ⟨a, ha, hleaf⟩, hlarge⟩

lemma Attribute.holdsLarge_dense {limit : ℕ} {ty : Ty} {values : List Int64} :
    (dense ty values).HoldsLarge limit ↔ limit < values.length := by
  simp [HoldsLarge, leaves]

lemma Attribute.not_holdsLarge {limit : ℕ} {a : Attribute} (hleaves : a.leaves = [a])
    (ha : ∀ ty values, a ≠ dense ty values) : ¬ a.HoldsLarge limit := by
  rintro ⟨ty, values, hmem, -⟩
  rw [hleaves, List.mem_singleton] at hmem
  exact ha ty values hmem.symm

/-- The attribute with the elements of each large dense attribute in it withheld. All that is left
of them is that there are more than the limit. -/
def Attribute.withheld (limit : ℕ) : Attribute → Attribute
  | array items => .array (items.map (withheld limit))
  | dense ty values =>
    .dense ty (if limit < values.length then List.replicate (limit + 1) 0 else values)
  | a => a

/-- The program with the elements of all large dense attributes withheld. -/
def Operation.withheld (limit : ℕ) : Operation → Operation :=
  mapWalk fun op => { op with attributes := op.attributes.map (Attribute.withheld limit) }

end IR

/-! ### Limits -/

namespace Print

def Flags.unlimited (f : Flags) : Flags := { f with elideAbove := none }

def Flags.limited (limit : ℕ) (f : Flags) : Flags := { f with elideAbove := some limit }

lemma elides_limited {limit n : ℕ} {f : Flags} : (f.limited limit).elides n ↔ limit < n := by
  simp [Flags.elides, Flags.limited]

variable (limit : ℕ) (f : Flags)

section

open Text

lemma partIf_denseText (ty : Ty) (values : List Int64) :
    PartIf (limit < values.length) (denseText f.unlimited ty values)
      (denseText (f.limited limit) ty values) := by
  have hshown : f.unlimited.elides values.length = false := rfl
  refine PartIf.extend (PartIf.extend ?_ _) _
  rw [hshown, if_neg Bool.false_ne_true]
  constructor
  · intro hsmall
    rw [if_neg fun h => hsmall (elides_limited.mp h)]
  · intro hlarge
    rw [if_pos (elides_limited.mpr hlarge)]
    -- Both begin with `dense`, and a bracket stands where the longer word goes on.
    refine ⟨"dense".toList, '<', '_', (elementsText values).toList ++ ['>'],
      "resource<__elided__>".toList, by decide, ?_, rfl⟩
    rw [String.toList_append, String.toList_append]
    rfl

lemma partIf_attributeText (a : Attribute) : PartIf (a.HoldsLarge limit)
    (attributeText f.unlimited a) (attributeText (f.limited limit) a) := by
  have hleaf {a : Attribute} (hleaves : a.leaves = [a]) (ha : ∀ ty values, a ≠ .dense ty values)
      (htext : attributeText f.unlimited a = attributeText (f.limited limit) a) :
      PartIf (a.HoldsLarge limit) (attributeText f.unlimited a)
        (attributeText (f.limited limit) a) := by
    have hsmall : False ↔ a.HoldsLarge limit :=
      iff_of_false not_false (Attribute.not_holdsLarge hleaves ha)
    rw [htext]
    exact (PartIf.refl _).congr hsmall
  induction a using Attribute.nested_induction with
  | array items ih =>
    rw [attributeText, attributeText]
    exact (((PartIf.commaList ih).prepend "[").extend "]").congr Attribute.holdsLarge_array.symm
  | dense ty values =>
    rw [attributeText, attributeText]
    exact (partIf_denseText limit f ty values).congr Attribute.holdsLarge_dense.symm
  | _ => exact hleaf (by simp [Attribute.leaves]) (by simp) (by rw [attributeText, attributeText])

lemma partIf_entryText (e : String × Attribute) : PartIf (e.2.HoldsLarge limit)
    (entryText f.unlimited e) (entryText (f.limited limit) e) := by
  have hattribute := partIf_attributeText limit f e.2
  unfold entryText
  split
  · rename_i hunit
    rw [eq_unit_of_isUnit hunit]
    exact (PartIf.refl e.1).congr (iff_of_false not_false
      (Attribute.not_holdsLarge (by simp [Attribute.leaves]) (by simp)))
  · exact hattribute.prepend _

lemma partIf_attributesText (op : Operation) : PartIf (op.HoldsLarge limit)
    (attributesText f.unlimited op) (attributesText (f.limited limit) op) := by
  unfold attributesText
  split
  · rename_i hempty
    have hnone : op.attributes.entries = [] := List.isEmpty_iff.mp hempty
    exact (PartIf.refl "").congr (by simp [Operation.HoldsLarge, hnone])
  · exact ((PartIf.commaList fun e _ => partIf_entryText limit f e).prepend _).extend _

lemma isEmpty_attributesText (f g : Flags) (op : Operation) :
    (attributesText f op).isEmpty = (attributesText g op).isEmpty := by
  have hbraced (t : String) : ("\x7b" ++ t ++ "\x7d").isEmpty = false := by
    rw [Bool.eq_false_iff, ne_eq, String.isEmpty_iff, ← String.toList_inj]
    simp
  unfold attributesText
  split
  · rfl
  · rw [hbraced, hbraced]

lemma partIf_description (op : Operation) : PartIf (op.HoldsLarge limit)
    (description f.unlimited op) (description (f.limited limit) op) := by
  have hattributes := partIf_attributesText limit f op
  unfold description
  refine PartIf.extend (PartIf.extend ?_ _) _
  rw [isEmpty_attributesText f.unlimited (f.limited limit)]
  split
  · rename_i hempty
    have hempty' := (isEmpty_attributesText f.unlimited (f.limited limit) op).trans hempty
    rw [String.isEmpty_iff] at hempty hempty'
    rw [hempty, hempty'] at hattributes
    exact (PartIf.refl "").congr (iff_of_false not_false (hattributes.eq_iff.mp rfl))
  · exact hattributes.prepend " "

/-- The lines part ways where an operation with a large attribute ends. -/
lemma partIf_line (ansi : Bool) (root : Operation) (p : ℕ × Slot) :
    PartIf (∃ o, p.2.ended? = some o ∧ o.HoldsLarge limit)
      (((Session.ofOperation ansi f.unlimited root).line p).render f.indent.unit)
      (((Session.ofOperation ansi (f.limited limit) root).line p).render f.indent.unit) := by
  have hfront : p.2.front (.ofOperation ansi f.unlimited root) =
      p.2.front (.ofOperation ansi (f.limited limit) root) := by
    cases p.2 <;> rfl
  have hback : PartIf (∃ o, p.2.ended? = some o ∧ o.HoldsLarge limit)
      (p.2.back (.ofOperation ansi f.unlimited root))
      (p.2.back (.ofOperation ansi (f.limited limit) root)) := by
    unfold Slot.back
    cases p.2.ended? with
    | none => exact (PartIf.refl "").congr (by simp)
    | some o =>
      simp only [Option.elim_some, tail_eq_remark, Option.some.injEq, exists_eq_left']
      exact (partIf_description limit f o).extend _
  have htext := hback.prepend (p.2.front (.ofOperation ansi (f.limited limit) root))
  rw [← hfront] at htext
  nth_rewrite 2 [hfront] at htext
  exact (htext.prepend _).extend "\n"

lemma partIf_text (ansi : Bool) (op : Operation) :
    PartIf (∃ o ∈ printed f op, o.HoldsLarge limit) (text ansi f.unlimited op)
      (text ansi (f.limited limit) op) := by
  rw [text_eq_slots, text_eq_slots]
  refine (PartIf.join fun p _ => partIf_line limit f ansi op p).congr ?_
  constructor
  · rintro ⟨p, hp, o, ho, hlarge⟩
    exact ⟨o, exists_ended?_iff.mp ⟨p, hp, ho⟩, hlarge⟩
  · rintro ⟨o, ho, hlarge⟩
    obtain ⟨p, hp, hended⟩ := exists_ended?_iff.mpr ho
    exact ⟨p, hp, o, hended, hlarge⟩

end

/-! ### What is withheld -/

lemma attributeText_withheld (a : Attribute) :
    attributeText (f.limited limit) (a.withheld limit) = attributeText (f.limited limit) a := by
  induction a using Attribute.nested_induction with
  | array items ih =>
    rw [Attribute.withheld, attributeText, attributeText, List.map_map]
    exact congrArg (fun l => "[" ++ Ty.commaList l ++ "]") (List.map_congr_left ih)
  | dense ty values =>
    rw [Attribute.withheld]
    split
    · rename_i hlarge
      rw [attributeText, attributeText, denseText, denseText, if_pos (elides_limited.mpr hlarge),
        if_pos (elides_limited.mpr (by simp))]
    · rfl
  | _ => simp only [Attribute.withheld]

lemma entryText_withheld (e : String × Attribute) :
    entryText (f.limited limit) (e.1, e.2.withheld limit) = entryText (f.limited limit) e := by
  have hunit : (e.2.withheld limit).isUnit = e.2.isUnit := by
    cases e.2 <;> simp only [Attribute.withheld] <;> rfl
  rw [entryText, entryText, hunit, attributeText_withheld]

lemma keepsValues_withheld : Operation.KeepsValues fun op =>
    { op with attributes := op.attributes.map (Attribute.withheld limit) } :=
  ⟨fun _ => rfl, fun _ => rfl, fun _ => rfl⟩

lemma tail_withheld {s : Session} (hs : s.flags.elideAbove = some limit) (op : Operation) :
    s.tail (op.withheld limit) = s.tail op := by
  have hflags : s.flags = s.flags.limited limit := by
    rw [Flags.limited, ← hs]
  have hattributes : attributesText s.flags (op.withheld limit) = attributesText s.flags op := by
    have hentries : (op.withheld limit).attributes.entries =
        op.attributes.entries.map fun e => (e.1, e.2.withheld limit) := by
      rw [Operation.withheld, Operation.mapWalk_eq]
      rfl
    have hempty : (op.withheld limit).attributes.isEmpty = op.attributes.isEmpty := by
      rw [Data.OrderedMap.isEmpty, hentries, List.isEmpty_map]
      rfl
    rw [attributesText, attributesText, hempty, hentries, List.map_map, hflags]
    simp only [Function.comp_def, entryText_withheld]
  have hsignature : signature (op.withheld limit) = signature op :=
    signature_mapWalk (keepsValues_withheld limit) op
  have husers : s.usersComment (op.withheld limit) = s.usersComment op :=
    s.usersComment_mapWalk (keepsValues_withheld limit) op
  have hlocation : s.locationText (op.withheld limit) = s.locationText op := by
    rw [Session.locationText, Session.locationText, Operation.withheld, Operation.mapWalk_eq]
  simp only [Session.tail, hattributes, hsignature, husers, hlocation]

lemma text_withheld (ansi : Bool) (op : Operation) :
    text ansi (f.limited limit) (op.withheld limit) = text ansi (f.limited limit) op := by
  have hsession : Session.ofOperation ansi (f.limited limit) (op.withheld limit) =
      .ofOperation ansi (f.limited limit) op :=
    Session.ofOperation_mapWalk (keepsValues_withheld limit) ansi _ op
  have hlines : lines ansi (f.limited limit) (op.withheld limit) =
      lines ansi (f.limited limit) op := by
    rw [lines, lines, hsession]
    exact Session.lines_mapWalk (keepsValues_withheld limit) _ (tail_withheld limit rfl) 0 op
  rw [text, text, hlines]

/-- **A limit changes the text of a program exactly if a large attribute is printed.** It leaves a
program alone just if no dense attribute of an operation that is printed, at any depth, has more
elements than the limit; and of an attribute that has more, only the type is left: another program
with the same other elements has the same text. -/
theorem limit_elides_exactly (ansi : Bool) (op : Operation) :
    (text ansi f.unlimited op = text ansi (f.limited limit) op ↔
      ∀ o ∈ printed f op, ∀ e ∈ o.attributes.entries, ∀ ty values,
        .dense ty values ∈ e.2.leaves → values.length ≤ limit) ∧
      (∀ (ty : Ty) (values : List Int64), limit < values.length →
        attributeText (f.limited limit) (.dense ty values) =
          "dense_resource<__elided__> : " ++ ty.text) ∧
      text ansi (f.limited limit) op = text ansi (f.limited limit) (op.withheld limit) := by
  refine ⟨?_, fun ty values hlarge => ?_, (text_withheld limit f ansi op).symm⟩
  · rw [(partIf_text limit f ansi op).eq_iff]
    simp only [Operation.HoldsLarge, Attribute.HoldsLarge, not_exists, not_and, not_lt]
  · rw [attributeText, denseText, if_pos (elides_limited.mpr hlarge), String.append_assoc,
      ← String.append_assoc]
    rfl

end Print

end OpTree
