import OpTree.Proofs.LineText
import OpTree.Proofs.SaveLoad
import Mathlib.Data.List.Flatten

/-!
Control characters in what is printed. A printer writes none but the line ends of its lines, and
quoting leaves none; so all others come from names that are printed as they are: attribute names,
names of symbols and names in locations. How often such a character stands in a text is how often it
stands in these.
-/

namespace OpTree

open OpTree.IR OpTree.Text

namespace Text

/-- The control characters of Unicode. -/
def IsControl (c : Char) : Prop := c.toNat ≤ 0x1f ∨ 0x7f ≤ c.toNat ∧ c.toNat ≤ 0x9f

instance : DecidablePred IsControl := fun c =>
  inferInstanceAs (Decidable (c.toNat ≤ 0x1f ∨ 0x7f ≤ c.toNat ∧ c.toNat ≤ 0x9f))

/-! ### Texts without control characters -/

/-- No character of the text is a control character. -/
def ControlFree (s : String) : Prop := ∀ c ∈ s.toList, ¬ IsControl c

-- Not by a search for an instance: this could go through all characters there are.
instance (s : String) : Decidable (ControlFree s) :=
  List.decidableBAll (fun c => ¬ IsControl c) s.toList

lemma controlFree_append {s t : String} :
    ControlFree (s ++ t) ↔ ControlFree s ∧ ControlFree t := by
  unfold ControlFree
  rw [String.toList_append, List.forall_mem_append]

lemma controlFree_join {l : List String} (h : ∀ s ∈ l, ControlFree s) :
    ControlFree (String.join l) := by
  unfold ControlFree
  rw [String.toList_join]
  intro c hc
  obtain ⟨s, hs, hc⟩ := List.mem_flatMap.mp hc
  exact h s hs c hc

lemma not_isControl_of_isDigit {c : Char} (hc : c.isDigit = true) : ¬ IsControl c := by
  have hrange : 48 ≤ c.toNat ∧ c.toNat ≤ 57 := by
    simpa [Char.isDigit, UInt32.le_iff_toNat_le] using hc
  unfold IsControl
  omega

lemma controlFree_toString_nat (n : ℕ) : ControlFree (toString n) := by
  unfold ControlFree
  rw [toList_toString_nat]
  exact fun c hc => not_isControl_of_isDigit (isDigit_of_mem_toDigits c hc)

lemma not_isControl_of_mem_numeral {n : Json.Numeral} (hn : n.WellFormed) (plusSign : Bool) :
    ∀ c ∈ n.text plusSign, ¬ IsControl c := by
  have hdigits {ds : List Char} (hds : ∀ c ∈ ds, c.isDigit = true) : ∀ c ∈ ds, ¬ IsControl c :=
    fun c hc => not_isControl_of_isDigit (hds c hc)
  have hint (e : ℤ) : ∀ c ∈ (toString e).toList, ¬ IsControl c := by
    rw [toList_toString_int]
    have hnat := hdigits (isDigit_of_mem_toDigits (n := e.natAbs))
    split
    · exact List.forall_mem_cons.mpr ⟨by decide, hnat⟩
    · exact hnat
  have hfraction : ∀ c ∈ n.fractionText, ¬ IsControl c := by
    unfold Json.Numeral.fractionText
    split
    · simp
    · exact List.forall_mem_cons.mpr ⟨by decide, hdigits hn.fraction_digits⟩
  have hexponent : ∀ c ∈ n.exponentText plusSign, ¬ IsControl c := by
    unfold Json.Numeral.exponentText
    split
    · simp
    · rw [List.forall_mem_cons, List.forall_mem_append]
      refine ⟨by decide, ?_, hint _⟩
      split <;> exact List.all_iff_forall_prop.mp (by decide)
  have hbody : ∀ c ∈ n.body plusSign, ¬ IsControl c := by
    unfold Json.Numeral.body
    simp only [List.forall_mem_append]
    exact ⟨hdigits hn.whole_digits, hfraction, hexponent⟩
  unfold Json.Numeral.text
  split
  · exact List.forall_mem_cons.mpr ⟨by decide, hbody⟩
  · exact hbody

lemma controlFree_toString_int (n : ℤ) : ControlFree (toString n) := by
  unfold ControlFree
  rw [Json.Numeral.text_ofInt n false]
  exact not_isControl_of_mem_numeral (Json.Numeral.wellFormed_ofInt n) false

lemma isUnprintable_of_isControl {c : Char} (hc : IsControl c) : isUnprintable c = true := by
  have hlow : ((0x0, 0x1f) : ℕ × ℕ) ∈ unprintableRanges := .head _
  have hhigh : ((0x7f, 0xa0) : ℕ × ℕ) ∈ unprintableRanges := .tail _ (.head _)
  rw [isUnprintable, List.any_eq_true]
  rcases hc with hc | hc
  · exact ⟨_, hlow, by simpa using hc⟩
  · refine ⟨_, hhigh, ?_⟩
    rw [Bool.and_eq_true, decide_eq_true_eq, decide_eq_true_eq]
    exact ⟨hc.1, hc.2.trans (by norm_num)⟩

lemma not_isControl_digitChar : ∀ k < 16, ¬ IsControl (Nat.digitChar k) := by decide

lemma not_isControl_of_mem_escapeChar (c : Char) : ∀ d ∈ escapeChar c, ¬ IsControl d := by
  have hhex : ∀ d ∈ Nat.toDigits 16 c.toNat, ¬ IsControl d := by
    intro d hd
    obtain ⟨k, hk, rfl⟩ := exists_digitChar_of_mem_toDigits (by norm_num) _ hd
    exact not_isControl_digitChar k hk
  unfold escapeChar
  split
  case h_7 =>
    split
    · rename_i hascii
      simp only [Bool.and_eq_true, decide_eq_true_eq] at hascii
      rw [List.forall_mem_singleton, IsControl]
      omega
    · split
      · simp only [List.forall_mem_append]
        exact ⟨⟨List.all_iff_forall_prop.mp (by decide), hhex⟩,
          List.all_iff_forall_prop.mp (by decide)⟩
      · rename_i hprintable
        -- A control character is unprintable, so it is not written as it is.
        rw [List.forall_mem_singleton]
        exact fun hc => hprintable (by rw [isUnprintable_of_isControl hc, Bool.or_true])
  all_goals exact List.all_iff_forall_prop.mp (by decide)

/-- **A quoted text has no control characters**, whatever it quotes. -/
theorem controlFree_quote (s : String) : ControlFree (quote s) := by
  unfold ControlFree
  rw [quote, String.toList_ofList, quoteChars, List.forall_mem_cons, List.forall_mem_append]
  refine ⟨by decide, fun d hd => ?_, List.all_iff_forall_prop.mp (by decide)⟩
  obtain ⟨c, -, hd⟩ := List.mem_flatMap.mp hd
  exact not_isControl_of_mem_escapeChar c d hd

/-! ### How often a character stands in a text -/

variable (c : Char)

/-- How often a character stands in a text. -/
def countOf (s : String) : ℕ := s.toList.count c

/-- How often a character stands in some texts together. -/
def countAll (l : List String) : ℕ := (l.map (countOf c)).sum

lemma countOf_eq_zero {s : String} : countOf c s = 0 ↔ c ∉ s.toList := List.count_eq_zero

lemma countOf_append (s t : String) : countOf c (s ++ t) = countOf c s + countOf c t := by
  unfold countOf
  rw [String.toList_append, List.count_append]

lemma countAll_append (l l' : List String) :
    countAll c (l ++ l') = countAll c l + countAll c l' := by
  unfold countAll
  rw [List.map_append, List.sum_append]

lemma countAll_flatMap {α : Type} (l : List α) (g : α → List String) :
    countAll c (l.flatMap g) = (l.map fun a => countAll c (g a)).sum := by
  induction l with
  | nil => rfl
  | cons a l ih => rw [List.flatMap_cons, countAll_append, ih, List.map_cons, List.sum_cons]

lemma countAll_eq_zero {l : List String} : countAll c l = 0 ↔ ∀ s ∈ l, c ∉ s.toList := by
  induction l with
  | nil => simp [countAll]
  | cons s l ih =>
    have hcons : countAll c (s :: l) = countOf c s + countAll c l := rfl
    rw [hcons, Nat.add_eq_zero_iff, ih, countOf_eq_zero, List.forall_mem_cons]

lemma countOf_join (l : List String) : countOf c (String.join l) = countAll c l := by
  unfold countOf countAll
  rw [String.toList_join, List.count_flatMap]
  rfl

variable {c}

lemma countOf_commaList (hc : IsControl c) (l : List String) :
    countOf c (Ty.commaList l) = countAll c l := by
  have hseparator : c ∉ [',', ' '] := by
    have hplain : ∀ d ∈ [',', ' '], ¬ IsControl d := List.all_iff_forall_prop.mp (by decide)
    exact fun hmem => hplain c hmem hc
  have hitem (s : String) : ([',', ' '] ++ s.toList).count c = countOf c s := by
    rw [List.count_append, List.count_eq_zero.mpr hseparator, Nat.zero_add]
    rfl
  unfold countOf
  rw [Ty.toList_commaList]
  cases l with
  | nil => rfl
  | cons s l =>
    rw [List.map_cons, intercalate_cons, List.count_append, List.flatMap_map, List.count_flatMap]
    simp only [Function.comp_def, hitem]
    rfl

lemma ControlFree.countOf_eq_zero {s : String} (hs : ControlFree s) (hc : IsControl c) :
    countOf c s = 0 := List.count_eq_zero.mpr fun hmem => hs c hmem hc

lemma controlFree_commaList {l : List String} (h : ∀ s ∈ l, ControlFree s) :
    ControlFree (Ty.commaList l) := by
  intro d hd hcontrol
  refine (Text.countOf_eq_zero d).mp ?_ hd
  rw [countOf_commaList hcontrol, countAll_eq_zero]
  exact fun s hs hmem => h s hs d hmem hcontrol

lemma countOf_between (hc : IsControl c) {s t : String} (hs : ControlFree s) (ht : ControlFree t)
    (r : String) : countOf c (s ++ r ++ t) = countOf c r := by
  rw [countOf_append, countOf_append, hs.countOf_eq_zero hc, ht.countOf_eq_zero hc, Nat.zero_add,
    Nat.add_zero]

end Text

/-! ### Names that are printed as they are -/

namespace IR

namespace Attribute

def symbols (a : Attribute) : List String :=
  a.leaves.filterMap fun
    | symbol name => some name
    | _ => none

lemma symbols_eq_nil {a : Attribute} (h : a.leaves = [a]) (hsymbol : ∀ name, a ≠ symbol name) :
    a.symbols = [] := by
  unfold symbols
  rw [h]
  cases a with
  | symbol name => exact absurd rfl (hsymbol name)
  | _ => rfl

lemma symbols_symbol (name : String) : (symbol name).symbols = [name] := by
  unfold symbols
  rw [leaves]
  · rfl
  · simp

lemma symbols_array (items : List Attribute) : (array items).symbols = items.flatMap symbols := by
  unfold symbols
  rw [leaves, List.filterMap_flatMap]

end Attribute

namespace Operation

/-- The names in an operation that are printed without quotes and escapes. -/
def bareNames (f : Print.Flags) (op : Operation) : List String :=
  op.attributes.entries.flatMap (fun e => e.1 :: e.2.symbols) ++
    if f.debugInfo then op.location.names else []

end Operation

/-! ### Types and locations -/

lemma Ty.controlFree_text (t : Ty) : ControlFree t.text := by
  induction t using Ty.nested_induction with
  | integer w =>
    rw [text, controlFree_append]
    exact ⟨by decide, controlFree_toString_nat _⟩
  | index | f32 | f64 | none => rw [text]; decide
  | tensor shape element ih =>
    have hdimension (d : Int64) : ControlFree (dimensionText d) := by
      unfold dimensionText
      rw [controlFree_append]
      refine ⟨?_, by decide⟩
      split
      · decide
      · exact controlFree_toString_int _
    have hshape : ControlFree (String.join (shape.map dimensionText)) :=
      controlFree_join (List.forall_mem_map.mpr fun d _ => hdimension d)
    simp only [text, controlFree_append]
    exact ⟨⟨⟨by decide, hshape⟩, ih⟩, by decide⟩
  | function inputs results ihInputs ihResults =>
    have hlist {ts : List Ty} (h : ∀ t ∈ ts, ControlFree t.text) :
        ControlFree (commaList (ts.map text)) := controlFree_commaList (List.forall_mem_map.mpr h)
    have hresults : ControlFree (resultsText results (results.map text)) := by
      unfold resultsText
      split
      · exact hlist ihResults
      · simp only [controlFree_append]
        exact ⟨⟨by decide, hlist ihResults⟩, by decide⟩
    simp only [text, controlFree_append]
    exact ⟨⟨⟨by decide, hlist ihInputs⟩, by decide⟩, hresults⟩

lemma Location.countOf_text {c : Char} (hc : IsControl c) (l : Location) :
    countOf c l.text = countAll c l.names := by
  induction l using Location.nested_induction with
  | unknown =>
    rw [text, names]
    exact (by decide : ControlFree "unknown").countOf_eq_zero hc
  | fileLineCol file line column =>
    have hposition :
        ControlFree ("\":" ++ toString line.toNat ++ ":" ++ toString column.toNat) := by
      simp only [controlFree_append]
      exact ⟨⟨⟨by decide, controlFree_toString_nat _⟩, by decide⟩, controlFree_toString_nat _⟩
    have htext : (fileLineCol file line column).text =
        "\"" ++ file ++ ("\":" ++ toString line.toNat ++ ":" ++ toString column.toNat) := by
      simp only [text, String.append_assoc]
    rw [htext, names, countOf_between hc (by decide) hposition]
    rfl
  | name n =>
    have hquote : ControlFree "\"" := by decide
    rw [text, names, countOf_between hc hquote hquote]
    rfl
  | fused parts ih =>
    have hparts : countAll c (parts.map text) = countAll c (parts.flatMap names) := by
      rw [countAll_flatMap, countAll, List.map_map]
      exact congrArg List.sum (List.map_congr_left ih)
    rw [text, names, countOf_between hc (by decide) (by decide), countOf_commaList hc, hparts]

end IR

namespace Print

/-! ### Attributes -/

lemma controlFree_floatText (x : Number.Binary64) : ControlFree (floatLayout.text x) := by
  unfold ControlFree
  rw [NumberText.toList_text]
  have hform := NumberText.wellFormed_ofFloat x
  cases hx : NumberText.ofFloat x with
  | nan => exact List.all_iff_forall_prop.mp (by decide)
  | infinite negative => cases negative <;> exact List.all_iff_forall_prop.mp (by decide)
  | numeral n =>
    rw [hx] at hform
    exact not_isControl_of_mem_numeral hform false

lemma controlFree_denseText (f : Flags) (ty : Ty) (values : List Int64) :
    ControlFree (denseText f ty values) := by
  have hbracketed (l : List Int64) :
      ControlFree ("[" ++ Ty.commaList (l.map fun v => toString v.toInt) ++ "]") := by
    simp only [controlFree_append]
    exact ⟨⟨by decide, controlFree_commaList
      (List.forall_mem_map.mpr fun v _ => controlFree_toString_int _)⟩, by decide⟩
  have helements : ControlFree (elementsText values) := by
    unfold elementsText
    cases values with
    | nil => exact hbracketed []
    | cons v vs =>
      dsimp only
      split
      · exact controlFree_toString_int _
      · exact hbracketed _
  unfold denseText
  simp only [controlFree_append]
  refine ⟨⟨?_, by decide⟩, ty.controlFree_text⟩
  split
  · decide
  · simp only [controlFree_append]
    exact ⟨⟨by decide, helements⟩, by decide⟩

section

variable {c : Char} (hc : IsControl c)

include hc

/-- Of an attribute only the names of symbols can hold control characters. -/
theorem countOf_attributeText (f : Flags) (a : Attribute) :
    countOf c (attributeText f a) = countAll c a.symbols := by
  have hleaf {a : Attribute} (hleaves : a.leaves = [a]) (hsymbol : ∀ name, a ≠ .symbol name)
      (htext : ControlFree (attributeText f a)) :
      countOf c (attributeText f a) = countAll c a.symbols := by
    rw [htext.countOf_eq_zero hc, Attribute.symbols_eq_nil hleaves hsymbol]
    rfl
  have htyped {s : String} (hs : ControlFree s) (t : Ty) : ControlFree (s ++ " : " ++ t.text) := by
    simp only [controlFree_append]
    exact ⟨⟨hs, by decide⟩, t.controlFree_text⟩
  induction a using Attribute.nested_induction with
  | unit => exact hleaf (by simp [Attribute.leaves]) (by simp) (by rw [attributeText]; decide)
  | bool b =>
    refine hleaf (by simp [Attribute.leaves]) (by simp) ?_
    rw [attributeText]
    cases b <;> decide
  | integer v t =>
    refine hleaf (by simp [Attribute.leaves]) (by simp) ?_
    rw [attributeText]
    exact htyped (controlFree_toString_int _) t
  | float v t =>
    refine hleaf (by simp [Attribute.leaves]) (by simp) ?_
    rw [attributeText]
    exact htyped (controlFree_floatText v) t
  | string s =>
    refine hleaf (by simp [Attribute.leaves]) (by simp) ?_
    rw [attributeText]
    exact controlFree_quote s
  | type t =>
    refine hleaf (by simp [Attribute.leaves]) (by simp) ?_
    rw [attributeText]
    exact t.controlFree_text
  | dense t values =>
    refine hleaf (by simp [Attribute.leaves]) (by simp) ?_
    rw [attributeText]
    exact controlFree_denseText f t values
  | array items ih =>
    have hitems : countAll c (items.map (attributeText f)) =
        countAll c (items.flatMap Attribute.symbols) := by
      rw [countAll_flatMap, countAll, List.map_map]
      exact congrArg List.sum (List.map_congr_left ih)
    rw [attributeText, Attribute.symbols_array, countOf_between hc (by decide) (by decide),
      countOf_commaList hc, hitems]
  | symbol name =>
    rw [attributeText, Attribute.symbols_symbol, countOf_append,
      (by decide : ControlFree "@").countOf_eq_zero hc, Nat.zero_add]
    rfl

lemma countOf_entryText (f : Flags) (e : String × Attribute) :
    countOf c (entryText f e) = countOf c e.1 + countAll c e.2.symbols := by
  unfold entryText
  split
  · rename_i hunit
    rw [eq_unit_of_isUnit hunit, Attribute.symbols_eq_nil (by simp [Attribute.leaves]) (by simp)]
    rfl
  · rw [countOf_append, countOf_append, countOf_attributeText hc,
      (by decide : ControlFree " = ").countOf_eq_zero hc, Nat.add_zero]

lemma countOf_attributesText (f : Flags) (op : Operation) : countOf c (attributesText f op) =
    countAll c (op.attributes.entries.flatMap fun e => e.1 :: e.2.symbols) := by
  have hentries : countAll c (op.attributes.entries.map (entryText f)) =
      countAll c (op.attributes.entries.flatMap fun e => e.1 :: e.2.symbols) := by
    rw [countAll_flatMap, countAll, List.map_map]
    exact congrArg List.sum (List.map_congr_left fun e _ => countOf_entryText hc f e)
  unfold attributesText
  split
  · rename_i hempty
    rw [Data.OrderedMap.isEmpty, List.isEmpty_iff] at hempty
    rw [hempty]
    rfl
  · rw [countOf_between hc (by decide) (by decide), countOf_commaList hc, hentries]

lemma countOf_attributesPart (f : Flags) (op : Operation) :
    countOf c (if (attributesText f op).isEmpty then "" else " " ++ attributesText f op) =
      countAll c (op.attributes.entries.flatMap fun e => e.1 :: e.2.symbols) := by
  rw [← countOf_attributesText hc f op]
  split
  · rename_i hempty
    rw [String.isEmpty_iff.mp hempty]
  · rw [countOf_append, (by decide : ControlFree " ").countOf_eq_zero hc, Nat.zero_add]

lemma countOf_locationText (s : Session) (op : Operation) : countOf c (s.locationText op) =
    countAll c (if s.flags.debugInfo then op.location.names else []) := by
  unfold Session.locationText
  split
  · rw [countOf_between hc (by decide) (by decide), Location.countOf_text hc]
  · rfl

end

/-! ### Names of values and users -/

lemma controlFree_name_ofOperation (root : Operation) (v : Value) :
    ControlFree ((Names.ofOperation root).name v) := by
  unfold Names.name Names.find?
  cases hfind : (Names.ofOperation root).entries.find? (·.1 = v.id) with
  | none => decide
  | some e =>
    rw [Option.map_some, Option.getD_some]
    rcases exists_of_mem_numbered e (List.mem_of_find?_eq_some hfind) with
      ⟨i, -, he⟩ | ⟨i, -, he⟩ <;> rw [he, controlFree_append]
    · exact ⟨by decide, controlFree_toString_nat i⟩
    · exact ⟨by decide, controlFree_toString_nat i⟩

lemma controlFree_of_mem_users {root op : Operation} :
    ∀ t ∈ (Uses.ofOperation root (.ofOperation root)).users op, ControlFree t := by
  intro t ht
  have hentry : ∃ e ∈ (Uses.ofOperation root (.ofOperation root)).entries, e.2 = t := by
    simp only [Uses.users, Uses.ofId, List.mem_eraseDups, List.mem_flatMap, List.mem_map,
      List.mem_filter] at ht
    obtain ⟨_, _, e, ⟨he, _⟩, rfl⟩ := ht
    exact ⟨e, he, rfl⟩
  obtain ⟨e, he, rfl⟩ := hentry
  simp only [Uses.ofOperation, List.mem_flatMap, List.mem_map] at he
  obtain ⟨o, _, _, _, rfl⟩ := he
  unfold identity
  split
  · exact controlFree_name_ofOperation root _
  · exact controlFree_quote _

section

variable {c : Char} (hc : IsControl c) {s : Session} (hs : ∀ v, countOf c (s.names.name v) = 0)

include hc hs

lemma countOf_nameList (vs : List Value) : countOf c (s.nameList vs) = 0 := by
  rw [Session.nameList, countOf_commaList hc, countAll_eq_zero, List.forall_mem_map]
  exact fun v _ => (countOf_eq_zero c).mp (hs v)

lemma countOf_labelText (index : ℕ) (b : Block) : countOf c (s.labelText index b) = 0 := by
  have harguments : countAll c (b.arguments.map s.argumentText) = 0 := by
    rw [countAll_eq_zero, List.forall_mem_map]
    intro v _
    rw [← countOf_eq_zero, Session.argumentText, countOf_append, countOf_append, hs,
      v.ty.controlFree_text.countOf_eq_zero hc, (by decide : ControlFree ": ").countOf_eq_zero hc]
  have hlist : countOf c (if b.arguments.isEmpty then ""
      else "(" ++ Ty.commaList (b.arguments.map s.argumentText) ++ ")") = 0 := by
    split
    · rfl
    · rw [countOf_between hc (by decide) (by decide), countOf_commaList hc, harguments]
  have hindex : ControlFree ("^bb" ++ toString index) :=
    controlFree_append.mpr ⟨by decide, controlFree_toString_nat index⟩
  rw [Session.labelText, countOf_append, countOf_append, hlist, hindex.countOf_eq_zero hc,
    (by decide : ControlFree ":").countOf_eq_zero hc]

end

end Print

end OpTree
